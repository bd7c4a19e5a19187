/-
The meaning of expressions, statements and programs. Parts are evaluated from left to right, and the
first signal ends the whole.

Every rule takes the evaluation of the expressions inside as an argument; `Eval.expr` ties the knot
at a depth. More depth never changes an outcome, it only lets more evaluations come to an end.
-/
import MonkeyLang.Eval.Builtin

namespace MonkeyLang

namespace Eval

section Rules

variable (expr : Expr → FrameRef → Eval Value)

/-- The values of expressions, in order. -/
def all (scope : FrameRef) : List Expr → Eval (List Value)
  | [] => pure []
  | e :: es => do
    let v ← expr e scope
    let vs ← all scope es
    return v :: vs

/-- The key of a value in a hash literal. -/
def keyOf (v : Value) : Eval HashKey :=
  match v.key? with
  | some k => pure k
  | none => signal (.failed (.unusableKey v.type))

/-- A hash with further pairs. A key must be usable before its value is evaluated. -/
def pairs (scope : FrameRef) (h : Hash) : List (Expr × Expr) → Eval Hash
  | [] => pure h
  | (k, v) :: ps => do
    let key ← expr k scope
    let hashKey ← keyOf key
    let value ← expr v scope
    pairs scope (h.insert hashKey ⟨key, value⟩) ps

/-! ## Statements -/

/-- A binding has the bound value for its value. -/
def statement (scope : FrameRef) : Stmt → Eval Value
  | .bind name e => do
    let v ← expr e scope
    define scope name v
    return v
  | .ret (some e) => do
    let v ← expr e scope
    signal (.returned v)
  | .ret none => signal (.returned .null)
  | .expr e => expr e scope

/-- Statements in order, after a value that stands if there are none. -/
def statementsAfter (scope : FrameRef) (v : Value) : List Stmt → Eval Value
  | [] => pure v
  | s :: ss => do
    let v ← statement expr scope s
    statementsAfter scope v ss

/-- The value of the last statement, or null without any. -/
def statements (scope : FrameRef) (ss : List Stmt) : Eval Value :=
  statementsAfter expr scope .null ss

/-! ## Expressions -/

/-- A built-in function hides whatever else has its name. -/
def name (scope : FrameRef) (name : String) : Eval Value :=
  match Builtin.ofName? name with
  | some b => pure (.builtin b)
  | none => do
    match (← store).lookup scope name with
    | some v => return v
    | none => signal (.failed (.undefinedName name))

/-- Binds parameters to arguments, in order. -/
def bindParams (scope : FrameRef) : List String → List Value → Eval Unit
  | p :: ps, v :: vs => do
    define scope p v
    bindParams scope ps vs
  | _, _ => pure ()

/-- The body runs in a new scope inside the one that the function was made in. -/
def applyClosure (c : Closure) (args : List Value) : Eval Value := do
  if c.params.length = args.length then
    let scope ← update (·.newFrame c.scope)
    bindParams scope c.params args
    call (statements expr scope c.body)
  else
    signal (.failed (.argumentCount c.params.length args.length))

def apply (callee : Value) (args : List Value) : Eval Value :=
  match callee with
  | .function r => do
    match (← store).closure? r with
    | some c => applyClosure expr c args
    | none => signal (.failed (.notCallable .function))
  | .builtin b => builtin b args
  | v => signal (.failed (.notCallable v.type))

/-- One level of an expression. -/
def level (e : Expr) (scope : FrameRef) : Eval Value :=
  match e with
  | .ident n => name scope n
  | .int n => pure (.int n)
  | .bool b => pure (.bool b)
  | .string s => pure (.string s)
  | .array es => do
    let vs ← all expr scope es
    let r ← update (·.newArray vs.toArray)
    return .array r
  | .hash ps => do
    let h ← pairs expr scope .empty ps
    let r ← update (·.newHash h)
    return .hash r
  | .function params body => do
    let r ← update (·.newClosure ⟨params, body, scope⟩)
    return .function r
  | .unary op e => do
    let v ← expr e scope
    ofExcept (op.apply v)
  | .binary op l r => do
    let v ← expr l scope
    let w ← expr r scope
    ofExcept (op.apply v w)
  | .cond c t a => do
    let v ← expr c scope
    if v.truthy then statements expr scope t
    else
      match a with
      | some a => statements expr scope a
      | none => return .null
  | .call f args => do
    let callee ← expr f scope
    let vs ← all expr scope args
    apply expr callee vs
  | .index c k => do
    let v ← expr c scope
    let w ← expr k scope
    ofExcept ((← store).subscript v w)

end Rules

/-- The value of an expression in a scope, with at most `n` levels of nesting. -/
def expr : Nat → Expr → FrameRef → Eval Value
  | 0, _, _ => tooDeep
  | n + 1, e, scope => level (expr n) e scope

end Eval

/-! ## Programs -/

namespace Machine

/-- Runs a program in a scope. A return ends it with the value returned, an error with the error as
its value. -/
def runIn (m : Machine) (depth : Nat) (scope : FrameRef) (p : Program) : Option (Value × Machine) :=
  match (Eval.statements (Eval.expr depth) scope p.statements).run m with
  | some (.ok v, m) => some (v, m)
  | some (.error (.returned v), m) => some (v, m)
  | some (.error (.failed e), m) => some (.error e, m)
  | none => none

end Machine

end MonkeyLang
