/-
What operators and subscripts do to values. Integers wrap around at 64 bits and divide toward zero.
-/
import MonkeyLang.Store.Basic

namespace MonkeyLang

def UnaryOp.apply : UnaryOp → Value → Except RuntimeError Value
  | .not, v => .ok (.bool !v.truthy)
  | .neg, .int n => .ok (.int (-n))
  | .neg, v => .error (.noUnary .neg v.type)

namespace BinaryOp

def onIntegers (l r : Int64) : BinaryOp → Except RuntimeError Value
  | add => .ok (.int (l + r))
  | sub => .ok (.int (l - r))
  | mul => .ok (.int (l * r))
  | div => if r = 0 then .error (.divisionByZero l) else .ok (.int (l / r))
  | less => .ok (.bool (decide (l < r)))
  | greater => .ok (.bool (decide (r < l)))
  | equal => .ok (.bool (l == r))
  | notEqual => .ok (.bool (l != r))

/-- Strings can be joined, and nothing else: not even compared. -/
def onStrings (l r : String) : BinaryOp → Except RuntimeError Value
  | add => .ok (.string (l ++ r))
  | op => .error (.noBinary .string op .string)

/-- Other operands can only be compared, by identity. -/
def onOthers (l r : Value) : BinaryOp → Except RuntimeError Value
  | equal => .ok (.bool (l.identical r))
  | notEqual => .ok (.bool !(l.identical r))
  | op =>
    if l.type = r.type then .error (.noBinary l.type op r.type)
    else .error (.operandMismatch l.type op r.type)

def apply (op : BinaryOp) : Value → Value → Except RuntimeError Value
  | .int l, .int r => op.onIntegers l r
  | .string l, .string r => op.onStrings l r
  | l, r => op.onOthers l r

end BinaryOp

namespace Store

/-- The element at a place of an array, or null outside of it. -/
def elementAt (s : Store) (r : ArrayRef) (i : Int64) : Value :=
  if i < 0 then .null else (s.elements r)[i.toInt.toNat]?.getD .null

/-- The value under a key of a hash, or null if there is none. -/
def valueAt (s : Store) (r : HashRef) (k : HashKey) : Value :=
  (((s.hash r).get? k).map HashPair.value).getD .null

/-- The value of `collection[key]`. -/
def subscript (s : Store) (collection key : Value) : Except RuntimeError Value :=
  match collection with
  | .array r =>
    match key with
    | .int i => .ok (s.elementAt r i)
    | k => .error (.subscriptNotInteger k.type)
  | .hash r =>
    match key.key? with
    | some k => .ok (s.valueAt r k)
    | none => .error (.unusableSubscript key.type)
  | c => .error (.notSubscriptable c.type key.type)

end Store

end MonkeyLang
