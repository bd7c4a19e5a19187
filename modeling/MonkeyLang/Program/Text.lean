/-
The canonical text of a program: one statement a line, every operation in parentheses.
-/
import MonkeyLang.Program.Basic
import MonkeyLang.Text.Basic

namespace MonkeyLang

/-- The canonical text of a hash from the texts of its pairs. -/
def hashText (pairs : List String) : String :=
  if pairs.isEmpty then "\x7b\x7d" else "\x7b " ++ ", ".intercalate pairs ++ " \x7d"

/-- The canonical text of a function from its parameters and the texts of its statements. -/
def functionText (params : List String) (body : List String) : String :=
  "fn(" ++ ", ".intercalate params ++ ") " ++
    (if body.isEmpty then "\x7b\x7d" else "\x7b " ++ "\n".intercalate body ++ " \x7d")

mutual

def Expr.text : Expr → String
  | .ident name => name
  | .int n => Text.signedDecimal n.toInt
  | .bool b => if b then "true" else "false"
  | .string s => s
  | .array elements => "[" ++ ", ".intercalate (Expr.texts elements) ++ "]"
  | .hash pairs => hashText (Expr.pairTexts pairs)
  | .function params body => functionText params (Stmt.texts body)
  | .unary op e => "(" ++ op.sign ++ e.text ++ ")"
  | .binary op l r => "(" ++ l.text ++ " " ++ op.sign ++ " " ++ r.text ++ ")"
  | .cond c t none => "if " ++ c.text ++ " then " ++ "\n".intercalate (Stmt.texts t)
  | .cond c t (some e) =>
    "if " ++ c.text ++ " then " ++ "\n".intercalate (Stmt.texts t) ++ " else " ++
      "\n".intercalate (Stmt.texts e)
  | .call f args => f.text ++ "(" ++ ", ".intercalate (Expr.texts args) ++ ")"
  | .index e i => "(" ++ e.text ++ "[" ++ i.text ++ "])"

def Expr.texts : List Expr → List String
  | [] => []
  | e :: es => e.text :: Expr.texts es

def Expr.pairTexts : List (Expr × Expr) → List String
  | [] => []
  | (k, v) :: ps => (k.text ++ ": " ++ v.text) :: Expr.pairTexts ps

def Stmt.text : Stmt → String
  | .bind name e => "let " ++ name ++ " = " ++ e.text ++ ";"
  | .ret (some e) => "return " ++ e.text ++ ";"
  | .ret none => "return;"
  | .expr e => e.text

def Stmt.texts : List Stmt → List String
  | [] => []
  | s :: ss => s.text :: Stmt.texts ss

end

def Program.text (p : Program) : String := "\n".intercalate (Stmt.texts p.statements)

theorem Expr.texts_eq_map (es : List Expr) : Expr.texts es = es.map Expr.text := by
  induction es with
  | nil => rfl
  | cons e es ih => simp [Expr.texts, ih]

theorem Expr.pairTexts_eq_map (ps : List (Expr × Expr)) :
    Expr.pairTexts ps = ps.map fun p => p.1.text ++ ": " ++ p.2.text := by
  induction ps with
  | nil => rfl
  | cons p ps ih => simp [Expr.pairTexts, ih]

theorem Stmt.texts_eq_map (ss : List Stmt) : Stmt.texts ss = ss.map Stmt.text := by
  induction ss with
  | nil => rfl
  | cons s ss ih => simp [Stmt.texts, ih]

end MonkeyLang
