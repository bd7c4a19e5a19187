/-
What can go wrong when a program runs, and how it is said.
-/
import MonkeyLang.Program.Basic
import MonkeyLang.Text.Basic
import MonkeyLang.Value.Type

namespace MonkeyLang

namespace RuntimeError

inductive Kind where
  | typeError
  | unknownOperator
  | referenceError
  | wrongArguments
  | unusableHashKey
  | divisionByZero
deriving DecidableEq, Repr, Inhabited

def Kind.name : Kind → String
  | typeError => "TypeError"
  | unknownOperator => "UnknownOperator"
  | referenceError => "ReferenceError"
  | wrongArguments => "WrongArguments"
  | unusableHashKey => "UnusableHashKey"
  | divisionByZero => "DivisionByZero"

end RuntimeError

inductive RuntimeError where
  /-- A binary operator between operands of different types. -/
  | operandMismatch (left : ValueType) (op : BinaryOp) (right : ValueType)
  /-- A unary operator on a type that has none. -/
  | noUnary (op : UnaryOp) (operand : ValueType)
  /-- A binary operator on a type that has none. -/
  | noBinary (left : ValueType) (op : BinaryOp) (right : ValueType)
  | undefinedName (name : String)
  | argumentCount (expected given : Nat)
  | notCallable (callee : ValueType)
  /-- A key of a hash literal that is no integer, boolean or string. -/
  | unusableKey (key : ValueType)
  /-- A subscript of a hash that is no integer, boolean or string. -/
  | unusableSubscript (key : ValueType)
  | divisionByZero (dividend : Int64)
  /-- A length was asked of something that has none. -/
  | noLength (given : ValueType)
  /-- A built-in function on arrays was called on something else. -/
  | notAnArray (builtin : Builtin) (given : ValueType)
  /-- Something was to be appended to what is no array. -/
  | cannotAppend (target item : ValueType)
  | subscriptNotInteger (key : ValueType)
  | notSubscriptable (collection key : ValueType)
  /-- An error that no evaluation raises: a host may hand in any kind with any message. -/
  | foreign (kind : RuntimeError.Kind) (message : String)
deriving DecidableEq, Repr, Inhabited

namespace RuntimeError

def kind : RuntimeError → Kind
  | operandMismatch .. => .typeError
  | noUnary .. => .unknownOperator
  | noBinary .. => .unknownOperator
  | undefinedName _ => .referenceError
  | argumentCount .. => .wrongArguments
  | notCallable _ => .typeError
  | unusableKey _ => .unusableHashKey
  | unusableSubscript _ => .unusableHashKey
  | divisionByZero _ => .divisionByZero
  | noLength _ => .typeError
  | notAnArray .. => .typeError
  | cannotAppend .. => .typeError
  | subscriptNotInteger _ => .typeError
  | notSubscriptable .. => .typeError
  | foreign kind _ => kind

def message : RuntimeError → String
  | operandMismatch l op r => "TypeError: " ++ l.name ++ " " ++ op.sign ++ " " ++ r.name
  | noUnary op t => "UnknownOperator: " ++ op.sign ++ t.name
  | noBinary l op r => "UnknownOperator: " ++ l.name ++ " " ++ op.sign ++ " " ++ r.name
  | undefinedName name => "ReferenceError: " ++ name ++ " is not defined"
  | argumentCount expected given =>
    "Wrong number of arguments. Expected " ++ Text.decimal expected ++ ", got " ++ Text.decimal given
  | notCallable t => "TypeError: " ++ t.name ++ " is not a function"
  | unusableKey t => "Unusable as hash key: " ++ t.name
  | unusableSubscript t => "TypeError: Unusable as hash key: " ++ t.name
  | divisionByZero n => "DivisionByZero: " ++ Text.signedDecimal n.toInt ++ " / 0"
  | noLength t => "TypeError: `len` expects a string, got " ++ t.name
  | notAnArray b t => "TypeError: `" ++ b.name ++ "` expects an array, got " ++ t.name
  | cannotAppend target item =>
    "TypeError: `push` expects an array and value, got " ++ target.name ++ " and " ++ item.name
  | subscriptNotInteger t => "TypeError: ARRAY index must be INTEGER, got " ++ t.name
  | notSubscriptable c k => "TypeError: index operator not supported: " ++ c.name ++ "[" ++ k.name ++ "]"
  | foreign _ message => message

/-- The same kind of error with the same message. -/
def sameAs (a b : RuntimeError) : Bool := a.kind == b.kind && a.message == b.message

end RuntimeError

end MonkeyLang
