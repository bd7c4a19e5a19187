/-
The JSON form of a program is lossless. Each node names its kind, and the parts of each kind are all there
in fixed places, so different programs have different trees (`Program.toJson_inj`); and different trees have
different texts. Two programs that print the same JSON are therefore the same (`Program.text_toJson_inj`),
which does not hold of canonical texts.
-/
import MonkeyLang.Program.Json
import MonkeyLang.Proofs.Json.Text

namespace MonkeyLang

/-! ## Parts of nodes -/

theorem nameJson_inj {a b : String} : nameJson a = nameJson b ↔ a = b := by simp [nameJson]

theorem map_nameJson_inj {as bs : List String} : as.map nameJson = bs.map nameJson ↔ as = bs :=
  List.map_inj_right fun _ _ => nameJson_inj.1

theorem UnaryOp.word_inj {a b : UnaryOp} : a.word = b.word ↔ a = b := by
  cases a <;> cases b <;> decide

theorem BinaryOp.word_inj {a b : BinaryOp} : a.word = b.word ↔ a = b := by
  cases a <;> cases b <;> decide

/-- A block that may be missing. -/
def alternativeJson : Option (List Stmt) → Json
  | none => .null
  | some ss => .object [("statements", .array (Stmt.allToJson ss))]

theorem Expr.toJson_cond (c : Expr) (t : List Stmt) (a : Option (List Stmt)) :
    (Expr.cond c t a).toJson = .node "If" (.object [
      ("condition", c.toJson),
      ("consequence", .object [("statements", .array (Stmt.allToJson t))]),
      ("alternative", alternativeJson a)]) := by
  cases a <;> rfl

theorem Expr.toJson_ne_null (e : Expr) : e.toJson ≠ .null := by
  cases e with
  | cond c t a => rw [Expr.toJson_cond]; nofun
  | _ => nofun

/-! ## Nodes -/

mutual

theorem Expr.toJson_inj : ∀ a b : Expr, a.toJson = b.toJson ↔ a = b
  | .ident _, b => by cases b <;> simp [Expr.toJson, Expr.toJson_cond, Json.node, nameJson_inj]
  | .int _, b => by cases b <;> simp [Expr.toJson, Expr.toJson_cond, Json.node, Int64.toInt_inj]
  | .bool _, b => by cases b <;> simp [Expr.toJson, Expr.toJson_cond, Json.node]
  | .string _, b => by cases b <;> simp [Expr.toJson, Expr.toJson_cond, Json.node]
  | .array as, b => by cases b <;> simp [Expr.toJson, Expr.toJson_cond, Json.node, Expr.allToJson_inj as]
  | .hash as, b => by cases b <;> simp [Expr.toJson, Expr.toJson_cond, Json.node, Expr.pairsToJson_inj as]
  | .function _ as, b => by
    cases b <;> simp [Expr.toJson, Expr.toJson_cond, Json.node, map_nameJson_inj, Stmt.allToJson_inj as]
  | .unary _ a, b => by
    cases b <;> simp [Expr.toJson, Expr.toJson_cond, Json.node, UnaryOp.word_inj, Expr.toJson_inj a]
  | .binary _ a a', b => by
    cases b <;> simp [Expr.toJson, Expr.toJson_cond, Json.node, BinaryOp.word_inj, Expr.toJson_inj a,
      Expr.toJson_inj a']
  | .cond a t none, b => by
    cases b with
    | cond b u f => cases f <;> simp [Expr.toJson, Json.node, Expr.toJson_inj a, Stmt.allToJson_inj t]
    | _ => simp [Expr.toJson, Json.node]
  | .cond a t (some e), b => by
    cases b with
    | cond b u f =>
      cases f <;> simp [Expr.toJson, Json.node, Expr.toJson_inj a, Stmt.allToJson_inj t, Stmt.allToJson_inj e]
    | _ => simp [Expr.toJson, Json.node]
  | .call a xs, b => by
    cases b <;> simp [Expr.toJson, Expr.toJson_cond, Json.node, Expr.toJson_inj a, Expr.allToJson_inj xs]
  | .index a i, b => by
    cases b <;> simp [Expr.toJson, Expr.toJson_cond, Json.node, Expr.toJson_inj a, Expr.toJson_inj i]

theorem Expr.allToJson_inj : ∀ as bs : List Expr, Expr.allToJson as = Expr.allToJson bs ↔ as = bs
  | [], bs => by cases bs <;> simp [Expr.allToJson]
  | a :: as, bs => by cases bs <;> simp [Expr.allToJson, Expr.toJson_inj a, Expr.allToJson_inj as]

theorem Expr.pairsToJson_inj : ∀ as bs : List (Expr × Expr), Expr.pairsToJson as = Expr.pairsToJson bs ↔ as = bs
  | [], bs => by cases bs <;> simp [Expr.pairsToJson]
  | (k, a) :: as, [] => by simp [Expr.pairsToJson]
  | (k, a) :: as, (l, b) :: bs => by
    simp [Expr.pairsToJson, Expr.toJson_inj k, Expr.toJson_inj a, Expr.pairsToJson_inj as]

theorem Stmt.toJson_inj : ∀ a b : Stmt, a.toJson = b.toJson ↔ a = b
  | .bind _ a, b => by
    cases b with
    | ret v => cases v <;> simp [Stmt.toJson, Json.node]
    | _ => simp [Stmt.toJson, Json.node, nameJson_inj, Expr.toJson_inj a]
  | .ret none, b => by
    cases b with
    -- no expression is written as the missing value is
    | ret v => cases v <;> simp [Stmt.toJson, Json.node, (Expr.toJson_ne_null _).symm]
    | _ => simp [Stmt.toJson, Json.node]
  | .ret (some a), b => by
    cases b with
    | ret v => cases v <;> simp [Stmt.toJson, Json.node, Expr.toJson_inj a, Expr.toJson_ne_null]
    | _ => simp [Stmt.toJson, Json.node]
  | .expr a, b => by
    cases b with
    | ret v => cases v <;> simp [Stmt.toJson, Json.node]
    | _ => simp [Stmt.toJson, Json.node, Expr.toJson_inj a]

theorem Stmt.allToJson_inj : ∀ as bs : List Stmt, Stmt.allToJson as = Stmt.allToJson bs ↔ as = bs
  | [], bs => by cases bs <;> simp [Stmt.allToJson]
  | a :: as, bs => by cases bs <;> simp [Stmt.allToJson, Stmt.toJson_inj a, Stmt.allToJson_inj as]

end

theorem Program.toJson_inj (p q : Program) : p.toJson = q.toJson ↔ p = q := by
  obtain ⟨ss⟩ := p
  obtain ⟨tt⟩ := q
  simp [Program.toJson, Stmt.allToJson_inj]

/-- Programs that print the same JSON are the same. -/
theorem Program.text_toJson_inj (p q : Program) : p.toJson.text = q.toJson.text ↔ p = q := by
  rw [Json.text_inj, Program.toJson_inj]

end MonkeyLang
