/-
The grammar of statements and expressions, and reading a whole source text by it: the program as far as it
could be read, and all errors on the way. Binary operators, calls and subscripts follow an operand as long as
they bind tighter than what stands to the left.

Every rule takes the reader for the expressions inside as an argument; `Parser.expr` ties the
knot. Its bound counts unread tokens: an expression inside another one starts further on, so with
no token left there is nothing to read, and the bound `n` serves every cursor with at most `n` tokens.
-/
import MonkeyLang.Parse.Cursor
import MonkeyLang.Program.Text

namespace MonkeyLang

/-! ## Precedence -/

inductive Precedence where
  | lowest
  | equality
  | comparison
  | sum
  | product
  | unary
  | call
  | index
deriving DecidableEq, Repr, Inhabited

/-- How tightly a level binds. -/
def Precedence.rank : Precedence → Nat
  | lowest => 0
  | equality => 1
  | comparison => 2
  | sum => 3
  | product => 4
  | unary => 5
  | call => 6
  | index => 7

instance : LT Precedence := ⟨fun a b => a.rank < b.rank⟩

instance : LE Precedence := ⟨fun a b => a.rank ≤ b.rank⟩

instance (a b : Precedence) : Decidable (a < b) := inferInstanceAs (Decidable (a.rank < b.rank))

instance (a b : Precedence) : Decidable (a ≤ b) := inferInstanceAs (Decidable (a.rank ≤ b.rank))

def BinaryOp.precedence : BinaryOp → Precedence
  | equal | notEqual => .equality
  | less | greater => .comparison
  | add | sub => .sum
  | mul | div => .product

/-- What may follow a complete operand. -/
inductive Continuation where
  | operator (op : BinaryOp)
  | call
  | index
deriving DecidableEq, Repr

namespace Continuation

def precedence : Continuation → Precedence
  | operator op => op.precedence
  | call => .call
  | index => .index

/-- The continuation that a kind of token announces. -/
def ofKind? : Token.Kind → Option Continuation
  | .plus => some (operator .add)
  | .minus => some (operator .sub)
  | .asterisk => some (operator .mul)
  | .slash => some (operator .div)
  | .less => some (operator .less)
  | .greater => some (operator .greater)
  | .equal => some (operator .equal)
  | .notEqual => some (operator .notEqual)
  | .leftParen => some call
  | .leftBracket => some index
  | _ => none

end Continuation

namespace Parser

/-! ## Statements -/

section Rules

variable (expr : Precedence → Parser Expr)

def bindStatement : Parser Stmt := do
  expect .ident
  let name ← current
  expect .assign
  advance
  let value ← expr .lowest
  skipSemicolon
  return .bind name.literal value

/-- A return stays a statement even if its value cannot be read. -/
def returnStatement : Parser Stmt := do
  advance
  let value ← attempt (expr .lowest)
  skipSemicolon
  return .ret value

def expressionStatement : Parser Stmt := do
  let value ← expr .lowest
  skipSemicolon
  return .expr value

def statement : Parser Stmt := do
  match (← current).kind with
  | .letWord => bindStatement expr
  | .returnWord => returnStatement expr
  | _ => expressionStatement expr

/-- Statements up to a token that ends them. A statement that cannot be read is left out, and reading
goes on at the token after it. The bound is the number of unread tokens: each turn takes one at least. -/
def statements (stops : Token.Kind → Bool) : Nat → Parser (List Stmt)
  | 0 => pure []
  | n + 1 => do
    if stops (← current).kind then
      return []
    else
      let s ← attempt (statement expr)
      advance
      let ss ← statements stops n
      return s.toList ++ ss

/-- A block ends with its closing brace, or where the text ends. -/
def endsBlock (k : Token.Kind) : Bool := k == .rightBrace || k == .endOfInput

def block : Parser (List Stmt) := do
  advance
  statements expr endsBlock (← unread)

/-! ## Operands -/

/-- A number is an operand if 64 bits can hold it. -/
def integer : Parser Expr := do
  let t ← current
  let n := Text.numeral t.literal.toList
  if n < Text.integerLimit then
    return .int (Int64.ofNat n)
  else
    fail fun t => .integerTooLarge t.literal

def unary (op : UnaryOp) : Parser Expr := do
  advance
  let e ← expr .unary
  return .unary op e

def grouped : Parser Expr := do
  advance
  let e ← expr .lowest
  expect .rightParen
  return e

def conditional : Parser Expr := do
  expect .leftParen
  advance
  let condition ← expr .lowest
  expect .rightParen
  expect .leftBrace
  let consequence ← block expr
  if ← nextIs .elseWord then
    advance
    expect .leftBrace
    let alternative ← block expr
    return .cond condition consequence (some alternative)
  else
    return .cond condition consequence none

def param : Parser String := do
  expect .ident
  return (← current).literal

def function : Parser Expr := do
  expect .leftParen
  let params ← items param .rightParen
  expect .leftBrace
  let body ← block expr
  return .function params body

/-- An expression that starts at the next token. -/
def nextExpr : Parser Expr := do
  advance
  expr .lowest

def array : Parser Expr := do
  let elements ← items (nextExpr expr) .rightBracket
  return .array elements

def pair : Parser (Expr × Expr) := do
  let key ← nextExpr expr
  expect .colon
  let value ← nextExpr expr
  return (key, value)

/-- Pairs up to the closing brace, the last one with or without a comma behind it. The bound is the
number of unread tokens: a pair takes one at least. -/
def pairs : Nat → Parser (List (Expr × Expr))
  | 0 => noOperand
  | n + 1 => do
    if ← nextIs .rightBrace then
      return []
    else
      let p ← pair expr
      if !(← nextIs .rightBrace) then
        expect .comma
      let ps ← pairs n
      return p :: ps

def hash : Parser Expr := do
  let ps ← pairs expr (← unread)
  expect .rightBrace
  return .hash ps

/-- The expression that the current token starts, as far as that token alone decides. -/
def operand : Parser Expr := do
  let t ← current
  match t.kind with
  | .ident => return .ident t.literal
  | .int => integer
  | .string => return .string t.literal
  | .trueWord => return .bool true
  | .falseWord => return .bool false
  | .bang => unary expr .not
  | .minus => unary expr .neg
  | .leftParen => grouped expr
  | .ifWord => conditional expr
  | .functionWord => function expr
  | .leftBracket => array expr
  | .leftBrace => hash expr
  | _ => noOperand

/-! ## Continuations -/

/-- What follows an operand, read on from the token that announces it. -/
def continued (left : Expr) : Continuation → Parser Expr
  | .operator op => do
    advance
    let right ← expr op.precedence
    return .binary op left right
  | .call => do
    let arguments ← items (nextExpr expr) .rightParen
    return .call left arguments
  | .index => do
    let key ← nextExpr expr
    expect .rightBracket
    return .index left key

/-- Extends an operand while what follows binds tighter than `p`. The bound is the number of unread
tokens: each turn takes one at least, and after the last token nothing follows. -/
def climb (p : Precedence) : Nat → Expr → Parser Expr
  | 0, left => pure left
  | n + 1, left => do
    match Continuation.ofKind? (← peek).kind with
    | none => return left
    | some k =>
      if p < k.precedence then
        advance
        let left ← continued expr left k
        climb p n left
      else
        return left

end Rules

/-- An expression whose parts all bind tighter than `p`, read with at most `n` unread tokens. -/
def expr : Nat → Precedence → Parser Expr
  | 0, _ => noOperand
  | n + 1, p => do
    let left ← operand (expr n)
    climb (expr n) p (← unread) left

end Parser

/-! ## Whole texts -/

structure Parsed where
  program : Program
  errors : List ParseError

/-- The statements up to the end of the text. -/
def Parser.wholeProgram : Parser (List Stmt) := do
  let n ← unread
  statements (expr n) (· == .endOfInput) n

def parse (source : String) : Parsed :=
  let (statements, c) := Parser.wholeProgram.run (Cursor.ofSource source)
  ⟨⟨statements.getD []⟩, c.errors⟩

/-- Whether the canonical text of a program is a source for it. -/
def Program.readsBack (p : Program) : Bool :=
  let again := parse p.text
  again.errors.isEmpty && again.program == p

end MonkeyLang
