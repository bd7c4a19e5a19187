/-
The literal of a node is the text of the token that it hangs on. `Program.literals` lists the
literals of all nodes, a node before its parts.
-/
import MonkeyLang.Program.Basic
import MonkeyLang.Text.Basic

namespace MonkeyLang

def Expr.literal : Expr → String
  | .ident name => name
  | .int n => Text.signedDecimal n.toInt
  | .bool b => if b then "true" else "false"
  | .string s => s
  | .array _ => "["
  | .hash _ => "\x7b"
  | .function _ _ => "fn"
  | .unary op _ => op.sign
  | .binary op _ _ => op.sign
  | .cond _ _ _ => "if"
  | .call _ _ => "("
  | .index _ _ => "["

def Stmt.literal : Stmt → String
  | .bind _ _ => "let"
  | .ret _ => "return"
  | .expr e => e.literal

/-- The literal of a block. -/
def blockLiteral : String := "\x7b"

/-- The literal of a program is that of its first statement. -/
def Program.literal (p : Program) : String := (p.statements.head?.map Stmt.literal).getD ""

mutual

def Expr.literals : Expr → List String
  | .ident name => [name]
  | .int n => [Text.signedDecimal n.toInt]
  | .bool b => [if b then "true" else "false"]
  | .string s => [s]
  | .array es => "[" :: Expr.allLiterals es
  | .hash ps => "\x7b" :: Expr.pairLiterals ps
  | .function _ body => "fn" :: blockLiteral :: Stmt.allLiterals body
  | .unary op e => op.sign :: e.literals
  | .binary op l r => op.sign :: (l.literals ++ r.literals)
  | .cond c t none => "if" :: (c.literals ++ blockLiteral :: Stmt.allLiterals t)
  | .cond c t (some e) =>
    "if" :: (c.literals ++ blockLiteral :: Stmt.allLiterals t ++ blockLiteral :: Stmt.allLiterals e)
  | .call f args => "(" :: (f.literals ++ Expr.allLiterals args)
  | .index e i => "[" :: (e.literals ++ i.literals)

def Expr.allLiterals : List Expr → List String
  | [] => []
  | e :: es => e.literals ++ Expr.allLiterals es

def Expr.pairLiterals : List (Expr × Expr) → List String
  | [] => []
  | (k, v) :: ps => k.literals ++ v.literals ++ Expr.pairLiterals ps

def Stmt.literals : Stmt → List String
  | .bind _ e => "let" :: e.literals
  | .ret none => ["return"]
  | .ret (some e) => "return" :: e.literals
  | .expr e => e.literal :: e.literals

def Stmt.allLiterals : List Stmt → List String
  | [] => []
  | s :: ss => s.literals ++ Stmt.allLiterals ss

end

def Program.literals (p : Program) : List String :=
  p.literal :: Stmt.allLiterals p.statements

end MonkeyLang
