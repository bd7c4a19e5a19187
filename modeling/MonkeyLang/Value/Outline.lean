/-
A value laid out as a finite tree. Arrays and hashes are replaced by what they hold; an array inside
itself is cut off, so that data that contain themselves can be shown.
-/
import MonkeyLang.Program.Text
import MonkeyLang.Store.Basic
import MonkeyLang.Text.Quoted

namespace MonkeyLang

inductive Outline where
  | int (n : Int64)
  | bool (b : Bool)
  | null
  | string (s : String)
  | array (elements : List Outline)
  /-- An array inside itself. -/
  | cut
  | hash (pairs : List (Outline × Outline))
  | function (params : List String) (body : List Stmt)
  | builtin (b : Builtin)
  | error (e : RuntimeError)

namespace Outline

/-! ## Text -/

mutual

/-- The text of a value as a program prints it. -/
def text : Outline → String
  | .int n => Text.signedDecimal n.toInt
  | .bool b => if b then "true" else "false"
  | .null => "null"
  | .string s => s
  | .array es => "[" ++ ", ".intercalate (texts es) ++ "]"
  | .cut => "[...]"
  | .hash ps => hashText (pairTexts ps)
  | .function params body => functionText params (Stmt.texts body)
  | .builtin _ => "builtin function"
  | .error e => "ERROR: " ++ e.message

def texts : List Outline → List String
  | [] => []
  | o :: os => o.text :: texts os

def pairTexts : List (Outline × Outline) → List String
  | [] => []
  | (k, v) :: ps => (k.text ++ ": " ++ v.text) :: pairTexts ps

end

/-! ## Text with types -/

/-- The text of a runtime error that shows its parts. -/
def errorDetail (e : RuntimeError) : String :=
  "RuntimeError \x7b kind: " ++ e.kind.name ++ ", message: " ++ Text.quoted e.message ++ " \x7d"

mutual

/-- The text of a value that also tells its type. -/
def detail : Outline → String
  | .int n => "Integer(" ++ Text.signedDecimal n.toInt ++ ")"
  | .bool b => "Boolean(" ++ (if b then "true" else "false") ++ ")"
  | .null => "Null"
  | .string s => "String(" ++ Text.quoted s ++ ")"
  | .array es => "Array([" ++ ", ".intercalate (details es) ++ "])"
  | .cut => "Array([...])"
  | .hash ps => "Hash(\x7b" ++ ", ".intercalate (pairDetails ps) ++ "\x7d)"
  | .function params body => "Function(" ++ functionText params (Stmt.texts body) ++ ")"
  | .builtin b => "Builtin(" ++ b.name ++ ")"
  | .error e => "Error(" ++ errorDetail e ++ ")"

def details : List Outline → List String
  | [] => []
  | o :: os => o.detail :: details os

def pairDetails : List (Outline × Outline) → List String
  | [] => []
  | (k, v) :: ps => (k.detail ++ ": " ++ v.detail) :: pairDetails ps

end

end Outline

namespace Store

/-- A value laid out to a depth, inside the arrays of `path`. -/
def outlineWithin (s : Store) : Nat → List ArrayRef → Value → Outline
  | 0, _, _ => .cut
  | n + 1, path, v =>
    match v with
    | .int n => .int n
    | .bool b => .bool b
    | .null => .null
    | .string t => .string t
    | .array r =>
      if r ∈ path then .cut
      else .array ((s.elements r).toList.map fun w => s.outlineWithin n (r :: path) w)
    | .hash r =>
      .hash ((s.hash r).pairs.map fun p =>
        (s.outlineWithin n path p.key, s.outlineWithin n path p.value))
    | .function r =>
      match s.closure? r with
      | some c => .function c.params c.body
      | none => .function [] []
    | .builtin b => .builtin b
    | .error e => .error e

/-- How deep a value can go before it meets itself: every array once, and between two arrays every
hash once, for a hash can only hold hashes made before it. -/
def depthBound (s : Store) : Nat := (s.arrays.size + 1) * (s.hashes.size + 1)

/-- A value laid out in full, an array inside itself excepted. -/
def outline (s : Store) (v : Value) : Outline := s.outlineWithin s.depthBound [] v

def text (s : Store) (v : Value) : String := (s.outline v).text

def detail (s : Store) (v : Value) : String := (s.outline v).detail

end Store

end MonkeyLang
