/-
What can be wrong with a source text, the state of reading a program, and the steps that every rule of the
grammar is made of. A step looks at the current token and the next one, moves forward, or gives up after
recording why; it never moves back and never forgets an error.
-/
import MonkeyLang.Token.Scan

namespace MonkeyLang

/-! ## Errors -/

namespace ParseError

inductive Cause where
  /-- Another kind of token had to come next. -/
  | expected (wanted found : Token.Kind)
  /-- No expression starts with this kind of token. -/
  | noOperand (found : Token.Kind)
  /-- The number is too large for a 64-bit integer. -/
  | integerTooLarge (literal : String)
deriving DecidableEq, Repr, Inhabited

def Cause.message : Cause → String
  | expected wanted found =>
    "Expected next token to be `" ++ wanted.name ++ "`, got `" ++ found.name ++ "` instead"
  | noOperand found => "No prefix parse function for " ++ found.name ++ " found"
  | integerTooLarge literal => "Could not parse " ++ literal ++ " as integer"

end ParseError

structure ParseError where
  cause : ParseError.Cause
  /-- The span of the token that is to blame. -/
  span : Span
deriving DecidableEq, Repr, Inhabited

def ParseError.message (e : ParseError) : String := e.cause.message

/-! ## Cursors -/

structure Cursor where
  /-- The tokens still to be read, the current one first, the token for the end left out. -/
  tokens : List Token
  /-- The token for the end, which is current once no other is left. -/
  last : Token
  /-- The errors so far, in the order in which they were found. -/
  errors : List ParseError

namespace Cursor

def ofSource (source : String) : Cursor :=
  let ts := Token.tokenize source
  ⟨ts.dropLast, ts.getLastD default, []⟩

def current (c : Cursor) : Token := c.tokens.headD c.last

/-- The token after the current one. -/
def peek (c : Cursor) : Token := c.tokens.tail.headD c.last

def advance (c : Cursor) : Cursor := { c with tokens := c.tokens.tail }

/-- The number of tokens still to be read, the current one included. -/
def unread (c : Cursor) : Nat := c.tokens.length

def report (c : Cursor) (cause : ParseError.Cause) (t : Token) : Cursor :=
  { c with errors := c.errors ++ [⟨cause, t.span⟩] }

@[simp] theorem unread_advance (c : Cursor) : c.advance.unread = c.unread - 1 := by
  simp [advance, unread]

@[simp] theorem unread_report (c : Cursor) (cause : ParseError.Cause) (t : Token) :
    (c.report cause t).unread = c.unread := rfl

end Cursor

/-- A way of reading an `α`. The rules of the grammar yield nothing only after recording an error. -/
def Parser (α : Type) : Type := Cursor → Option α × Cursor

namespace Parser

variable {α β : Type}

@[inline] def run (p : Parser α) (c : Cursor) : Option α × Cursor := p c

@[inline] protected def pure (a : α) : Parser α := fun c => (some a, c)

@[inline] protected def bind (p : Parser α) (f : α → Parser β) : Parser β := fun c =>
  match p c with
  | (some a, c) => f a c
  | (none, c) => (none, c)

instance : Monad Parser where
  pure := Parser.pure
  bind := Parser.bind

@[simp] theorem run_pure (a : α) (c : Cursor) : (pure a : Parser α).run c = (some a, c) := rfl

theorem run_bind (p : Parser α) (f : α → Parser β) (c : Cursor) :
    (p >>= f).run c =
      match p.run c with
      | (some a, c) => (f a).run c
      | (none, c) => (none, c) := rfl

theorem run_bind_some {p : Parser α} {c c' : Cursor} {a : α} (h : p.run c = (some a, c'))
    (f : α → Parser β) : (p >>= f).run c = (f a).run c' := by
  rw [run_bind, h]

theorem run_bind_none {p : Parser α} {c c' : Cursor} (h : p.run c = (none, c'))
    (f : α → Parser β) : (p >>= f).run c = (none, c') := by
  rw [run_bind, h]

/-! ## Looking -/

def current : Parser Token := fun c => (some c.current, c)

/-- Whether the next token is of a kind. -/
def nextIs (k : Token.Kind) : Parser Bool := fun c => (some (c.peek.kind == k), c)

def peek : Parser Token := fun c => (some c.peek, c)

def unread : Parser Nat := fun c => (some c.unread, c)

/-! ## Moving -/

def advance : Parser Unit := fun c => (some (), c.advance)

/-- Moves to the next token if it is of the kind asked for, and gives up otherwise. -/
def expect (k : Token.Kind) : Parser Unit := fun c =>
  if c.peek.kind = k then (some (), c.advance)
  else (none, c.report (.expected k c.peek.kind) c.peek)

/-- Gives up at the current token. -/
def fail (cause : Token → ParseError.Cause) : Parser α := fun c =>
  (none, c.report (cause c.current) c.current)

/-- Gives up at a token that no expression starts with. -/
def noOperand : Parser α := fail fun t => .noOperand t.kind

/-- What was read, if anything was; the errors stay, but reading goes on. -/
def attempt (p : Parser α) : Parser (Option α) := fun c =>
  let (a, c) := p c
  (some a, c)

/-- A semicolon may close a statement. -/
def skipSemicolon : Parser Unit := do
  if ← nextIs .semicolon then advance

/-! ## Repeating -/

/-- Items that are each introduced by a comma. The bound is the number of unread tokens: a further
item takes one at least, and without any there is no comma. -/
def moreItems (item : Parser α) : Nat → Parser (List α)
  | 0 => pure []
  | n + 1 => do
    if ← nextIs .comma then
      advance
      let a ← item
      let as ← moreItems item n
      return a :: as
    else
      return []

/-- Items separated by commas up to a closing token. -/
def items (item : Parser α) (close : Token.Kind) : Parser (List α) := do
  if ← nextIs close then
    advance
    return []
  else
    let a ← item
    let as ← moreItems item (← unread)
    expect close
    return a :: as

end Parser

end MonkeyLang
