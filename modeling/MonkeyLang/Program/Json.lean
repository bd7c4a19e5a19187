/-
The JSON form of a program: each node is an object with one field, named for the kind of node.
-/
import MonkeyLang.Json
import MonkeyLang.Program.Basic

namespace MonkeyLang

/-- An object with one field, which names the kind of node. -/
def Json.node (kind : String) (content : Json) : Json := .object [(kind, content)]

def nameJson (name : String) : Json := .object [("value", .string name)]

def UnaryOp.word : UnaryOp → String
  | not => "Not"
  | neg => "Neg"

def BinaryOp.word : BinaryOp → String
  | add => "Add"
  | sub => "Sub"
  | mul => "Mul"
  | div => "Div"
  | less => "Lt"
  | greater => "Gt"
  | equal => "Eq"
  | notEqual => "NotEq"

mutual

def Expr.toJson : Expr → Json
  | .ident name => .node "Identifier" (nameJson name)
  | .int n => .node "Integer" (.int n.toInt)
  | .bool b => .node "Boolean" (.bool b)
  | .string s => .node "String" (.string s)
  | .array es => .node "Array" (.array (Expr.allToJson es))
  | .hash ps => .node "Hash" (.array (Expr.pairsToJson ps))
  | .function params body =>
    .node "Function" (.object [
      ("parameters", .array (params.map nameJson)),
      ("body", .object [("statements", .array (Stmt.allToJson body))])])
  | .unary op e => .node "Prefix" (.object [("operator", .string op.word), ("right", e.toJson)])
  | .binary op l r =>
    .node "Infix" (.object [("operator", .string op.word), ("left", l.toJson), ("right", r.toJson)])
  | .cond c t none =>
    .node "If" (.object [
      ("condition", c.toJson),
      ("consequence", .object [("statements", .array (Stmt.allToJson t))]),
      ("alternative", .null)])
  | .cond c t (some e) =>
    .node "If" (.object [
      ("condition", c.toJson),
      ("consequence", .object [("statements", .array (Stmt.allToJson t))]),
      ("alternative", .object [("statements", .array (Stmt.allToJson e))])])
  | .call f args =>
    .node "Call" (.object [("function", f.toJson), ("arguments", .array (Expr.allToJson args))])
  | .index e i => .node "Index" (.object [("left", e.toJson), ("index", i.toJson)])

def Expr.allToJson : List Expr → List Json
  | [] => []
  | e :: es => e.toJson :: Expr.allToJson es

def Expr.pairsToJson : List (Expr × Expr) → List Json
  | [] => []
  | (k, v) :: ps => .array [k.toJson, v.toJson] :: Expr.pairsToJson ps

def Stmt.toJson : Stmt → Json
  | .bind name e => .node "Let" (.object [("name", nameJson name), ("value", e.toJson)])
  | .ret none => .node "Return" (.object [("value", .null)])
  | .ret (some e) => .node "Return" (.object [("value", e.toJson)])
  | .expr e => .node "Expression" e.toJson

def Stmt.allToJson : List Stmt → List Json
  | [] => []
  | s :: ss => s.toJson :: Stmt.allToJson ss

end

def Program.toJson (p : Program) : Json :=
  .object [("statements", .array (Stmt.allToJson p.statements))]

end MonkeyLang
