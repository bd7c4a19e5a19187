/-
Tokens: what kind of word or sign was read, its literal text, and where it stands. Places are byte ranges of
a source text, from the first byte up to, but not including, the last.
-/
import MonkeyLang.Text.Basic
import MonkeyLang.Text.Quoted

namespace MonkeyLang

structure Span where
  start : Nat
  stop : Nat
deriving DecidableEq, Repr, Inhabited

namespace Span

/-- The empty range at an offset. -/
def point (offset : Nat) : Span := ⟨offset, offset⟩

/-- The number of bytes in the range; a range that ends before it starts has none. -/
def length (s : Span) : Nat := s.stop - s.start

def isEmpty (s : Span) : Bool := s.length == 0

def text (s : Span) : String := Text.decimal s.start ++ ".." ++ Text.decimal s.stop

def bounds (s : Span) : Nat × Nat := (s.start, s.stop)

def ofBounds (b : Nat × Nat) : Span := ⟨b.1, b.2⟩

/-- The range moved `n` bytes to the right. -/
def shift (s : Span) (n : Nat) : Span := ⟨s.start + n, s.stop + n⟩

@[simp] theorem ofBounds_bounds (s : Span) : ofBounds s.bounds = s := rfl

@[simp] theorem length_point (offset : Nat) : (point offset).length = 0 := by
  simp [point, length]

@[simp] theorem length_shift (s : Span) (n : Nat) : (s.shift n).length = s.length := by
  simp only [shift, length]
  omega

end Span

namespace Token

inductive Kind where
  | assign
  | plus
  | minus
  | bang
  | asterisk
  | slash
  | less
  | greater
  | equal
  | notEqual
  | comma
  | semicolon
  | colon
  | leftParen
  | rightParen
  | leftBrace
  | rightBrace
  | leftBracket
  | rightBracket
  | functionWord
  | letWord
  | trueWord
  | falseWord
  | ifWord
  | elseWord
  | returnWord
  | ident
  | int
  | string
  | illegal
  | endOfInput
deriving DecidableEq, Repr, Inhabited

/-- The name of a kind in messages and listings: the sign itself, or a word in capitals. -/
def Kind.name : Kind → String
  | assign => "="
  | plus => "+"
  | minus => "-"
  | bang => "!"
  | asterisk => "*"
  | slash => "/"
  | less => "<"
  | greater => ">"
  | equal => "=="
  | notEqual => "!="
  | comma => ","
  | semicolon => ";"
  | colon => ":"
  | leftParen => "("
  | rightParen => ")"
  | leftBrace => "\x7b"
  | rightBrace => "\x7d"
  | leftBracket => "["
  | rightBracket => "]"
  | functionWord => "FUNCTION"
  | letWord => "LET"
  | trueWord => "TRUE"
  | falseWord => "FALSE"
  | ifWord => "IF"
  | elseWord => "ELSE"
  | returnWord => "RETURN"
  | ident => "IDENT"
  | int => "INT"
  | string => "STRING"
  | illegal => "ILLEGAL"
  | endOfInput => "EOF"

/-- The kind of a run of letters: a reserved word, or else an identifier. -/
def Kind.ofWord (word : String) : Kind :=
  if word = "fn" then functionWord
  else if word = "let" then letWord
  else if word = "true" then trueWord
  else if word = "false" then falseWord
  else if word = "if" then ifWord
  else if word = "else" then elseWord
  else if word = "return" then returnWord
  else ident

/-- The kind of a character that is a sign on its own; no other character starts a token. -/
def Kind.ofSign : Char → Kind
  | '=' => assign
  | '+' => plus
  | '-' => minus
  | '!' => bang
  | '*' => asterisk
  | '/' => slash
  | '<' => less
  | '>' => greater
  | ',' => comma
  | ';' => semicolon
  | ':' => colon
  | '(' => leftParen
  | ')' => rightParen
  | '\x7b' => leftBrace
  | '\x7d' => rightBrace
  | '[' => leftBracket
  | ']' => rightBracket
  | _ => illegal

end Token

/-- A token. The literal of a string is what stands between its quotes; its span has the quotes. -/
structure Token where
  kind : Token.Kind
  literal : String
  span : Span
deriving DecidableEq, Repr, Inhabited

namespace Token

/-- The token after the last one, at the end of a text of `offset` bytes. -/
def endAt (offset : Nat) : Token := ⟨.endOfInput, "", Span.point offset⟩

def text (t : Token) : String :=
  t.kind.name ++ " " ++ Text.quoted t.literal ++ " @ " ++ t.span.text

def shift (t : Token) (n : Nat) : Token := { t with span := t.span.shift n }

end Token

end MonkeyLang
