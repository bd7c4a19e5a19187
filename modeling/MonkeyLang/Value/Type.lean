/-
The types of values and the built-in functions, by name.
-/

namespace MonkeyLang

inductive ValueType where
  | integer
  | boolean
  | null
  | string
  | array
  | hash
  | function
  | builtin
  | error
deriving DecidableEq, Repr, Inhabited

def ValueType.name : ValueType → String
  | integer => "INTEGER"
  | boolean => "BOOLEAN"
  | null => "NULL"
  | string => "STRING"
  | array => "ARRAY"
  | hash => "HASH"
  | function => "FUNCTION"
  | builtin => "BUILTIN"
  | error => "ERROR"

inductive Builtin where
  | len
  | head
  | tail
  | last
  | push
  | puts
deriving DecidableEq, Repr, Inhabited

namespace Builtin

def name : Builtin → String
  | len => "len"
  | head => "head"
  | tail => "tail"
  | last => "last"
  | push => "push"
  | puts => "puts"

/-- All built-in functions, in the order in which they are listed. -/
def all : List Builtin := [len, head, tail, last, push, puts]

def ofName? (name : String) : Option Builtin := all.find? fun b => b.name == name

theorem mem_all (b : Builtin) : b ∈ all := by cases b <;> simp [all]

theorem ofName?_name (b : Builtin) : ofName? b.name = some b := by cases b <;> decide

theorem name_of_ofName? {name : String} {b : Builtin} (h : ofName? name = some b) :
    b.name = name := by
  simpa using List.find?_some h

end Builtin

end MonkeyLang
