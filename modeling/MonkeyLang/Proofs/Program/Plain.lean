/-
Plain programs: those whose canonical text is a source for them. A string shows no quotes and a
conditional no parentheses in that text, a return may lack its value, and a negative number reads as a
negation; besides, an expression must not run into a statement that opens with a bracket behind it.
The words of a plain expression are given by one equation a form.
-/
import MonkeyLang.Proofs.Token.Word
import MonkeyLang.Program.Text

namespace MonkeyLang

open Token (Word wordsOf wordsOf_append wordsOf_sign wordsOf_space wordsOf_newline wordsOf_nil Breaks
  breaks_cons breaks_nil isLetter isDigit)

/-! ## The fragment -/

/-- A name is a run of letters that is no reserved word. -/
def isName (s : String) : Bool := s.toList != [] && s.toList.all isLetter && Token.Kind.ofWord s == .ident

def opensBracket (s : String) : Bool := s.toList.head? == some '(' || s.toList.head? == some '['

/-- No statement that opens with a bracket directly follows an expression. -/
def Stmt.apart : List Stmt → Bool
  | .expr _ :: s :: ss => !opensBracket s.text && Stmt.apart (s :: ss)
  | _ :: ss => Stmt.apart ss
  | [] => true

mutual

def Expr.plain : Expr → Bool
  | .ident name => isName name
  | .int n => 0 ≤ n
  | .bool _ => true
  | .string _ => false
  | .array es => Expr.allPlain es
  | .hash ps => Expr.pairsPlain ps
  | .function params body => params.all isName && Stmt.allPlain body && Stmt.apart body
  | .unary _ e => e.plain
  | .binary _ l r => l.plain && r.plain
  | .cond _ _ _ => false
  | .call f args => f.plain && Expr.allPlain args
  | .index e i => e.plain && i.plain

def Expr.allPlain : List Expr → Bool
  | [] => true
  | e :: es => e.plain && Expr.allPlain es

def Expr.pairsPlain : List (Expr × Expr) → Bool
  | [] => true
  | (k, v) :: ps => k.plain && v.plain && Expr.pairsPlain ps

def Stmt.plain : Stmt → Bool
  | .bind name e => isName name && e.plain
  | .ret (some e) => e.plain
  | .ret none => false
  | .expr e => e.plain

def Stmt.allPlain : List Stmt → Bool
  | [] => true
  | s :: ss => s.plain && Stmt.allPlain ss

end

def Program.plain (p : Program) : Bool := Stmt.allPlain p.statements && Stmt.apart p.statements

/-! ## Induction -/

/-- A fact about expressions and statements that passes from the parts of each plain form to the form. -/
structure PlainCases (P : Expr → Prop) (Q : Stmt → Prop) : Prop where
  ident : ∀ name, isName name = true → P (.ident name)
  int : ∀ n : Int64, 0 ≤ n → P (.int n)
  bool : ∀ b, P (.bool b)
  array : ∀ es, (∀ e ∈ es, e.plain = true ∧ P e) → P (.array es)
  hash : ∀ ps, (∀ q ∈ ps, (q.1.plain = true ∧ P q.1) ∧ q.2.plain = true ∧ P q.2) → P (.hash ps)
  function : ∀ params body, (∀ x ∈ params, isName x = true) → (∀ s ∈ body, s.plain = true ∧ Q s) →
    Stmt.apart body = true → P (.function params body)
  unary : ∀ op e, e.plain = true → P e → P (.unary op e)
  binary : ∀ op l r, l.plain = true → P l → r.plain = true → P r → P (.binary op l r)
  call : ∀ f args, f.plain = true → P f → (∀ e ∈ args, e.plain = true ∧ P e) → P (.call f args)
  index : ∀ e i, e.plain = true → P e → i.plain = true → P i → P (.index e i)
  bind : ∀ name e, isName name = true → e.plain = true → P e → Q (.bind name e)
  ret : ∀ e, e.plain = true → P e → Q (.ret (some e))
  expr : ∀ e, e.plain = true → P e → Q (.expr e)

namespace PlainCases

variable {P : Expr → Prop} {Q : Stmt → Prop}

mutual

/-- What passes from the parts to each form holds of all plain expressions. -/
theorem of_expr (c : PlainCases P Q) : ∀ e : Expr, e.plain = true → P e
  | .ident name, h => c.ident name h
  | .int n, h => c.int n (of_decide_eq_true h)
  | .bool b, _ => c.bool b
  | .string _, h => nomatch h
  | .array es, h => c.array es (c.of_exprs es h)
  | .hash ps, h => c.hash ps (c.of_pairs ps h)
  | .function params body, h => by
    simp only [Expr.plain, Bool.and_eq_true, List.all_eq_true] at h
    exact c.function params body h.1.1 (c.of_stmts body h.1.2) h.2
  | .unary op e, h => c.unary op e h (c.of_expr e h)
  | .binary op l r, h => by
    simp only [Expr.plain, Bool.and_eq_true] at h
    exact c.binary op l r h.1 (c.of_expr l h.1) h.2 (c.of_expr r h.2)
  | .cond _ _ _, h => nomatch h
  | .call f args, h => by
    simp only [Expr.plain, Bool.and_eq_true] at h
    exact c.call f args h.1 (c.of_expr f h.1) (c.of_exprs args h.2)
  | .index e i, h => by
    simp only [Expr.plain, Bool.and_eq_true] at h
    exact c.index e i h.1 (c.of_expr e h.1) h.2 (c.of_expr i h.2)

theorem of_exprs (c : PlainCases P Q) : ∀ es : List Expr, Expr.allPlain es = true →
    ∀ e ∈ es, e.plain = true ∧ P e
  | [], _ => by simp
  | e :: es, h => by
    simp only [Expr.allPlain, Bool.and_eq_true] at h
    have h₁ := c.of_expr e h.1
    have h₂ := c.of_exprs es h.2
    intro d hd
    rcases List.mem_cons.1 hd with rfl | hd
    · exact ⟨h.1, h₁⟩
    · exact h₂ d hd

theorem of_pairs (c : PlainCases P Q) : ∀ ps : List (Expr × Expr), Expr.pairsPlain ps = true →
    ∀ q ∈ ps, (q.1.plain = true ∧ P q.1) ∧ q.2.plain = true ∧ P q.2
  | [], _ => by simp
  | (k, v) :: ps, h => by
    simp only [Expr.pairsPlain, Bool.and_eq_true] at h
    have h₁ := c.of_expr k h.1.1
    have h₂ := c.of_expr v h.1.2
    have h₃ := c.of_pairs ps h.2
    intro q hq
    rcases List.mem_cons.1 hq with rfl | hq
    · exact ⟨⟨h.1.1, h₁⟩, h.1.2, h₂⟩
    · exact h₃ q hq

theorem of_stmt (c : PlainCases P Q) : ∀ s : Stmt, s.plain = true → Q s
  | .bind name e, h => by
    simp only [Stmt.plain, Bool.and_eq_true] at h
    exact c.bind name e h.1 h.2 (c.of_expr e h.2)
  | .ret (some e), h => c.ret e h (c.of_expr e h)
  | .ret none, h => nomatch h
  | .expr e, h => c.expr e h (c.of_expr e h)

theorem of_stmts (c : PlainCases P Q) : ∀ ss : List Stmt, Stmt.allPlain ss = true →
    ∀ s ∈ ss, s.plain = true ∧ Q s
  | [], _ => by simp
  | s :: ss, h => by
    simp only [Stmt.allPlain, Bool.and_eq_true] at h
    have h₁ := c.of_stmt s h.1
    have h₂ := c.of_stmts ss h.2
    intro t ht
    rcases List.mem_cons.1 ht with rfl | ht
    · exact ⟨h.1, h₁⟩
    · exact h₂ t ht

end

end PlainCases

theorem isName_iff {s : String} : isName s = true ↔
    s.toList ≠ [] ∧ (∀ c ∈ s.toList, isLetter c = true) ∧ Token.Kind.ofWord s = .ident := by
  simp [isName, and_assoc]

/-! ## No quotes -/

theorem quote_not_mem_joined (s : List Char) (ts : List String) (hs : '"' ∉ s)
    (ht : ∀ t ∈ ts, '"' ∉ t.toList) : '"' ∉ s.intercalate (ts.map String.toList) := by
  induction ts with
  | nil => simp
  | cons t ts ih =>
    have h₁ := ht t (by simp)
    have h₂ := ih fun u hu => ht u (List.mem_cons_of_mem t hu)
    cases ts with
    | nil => simpa using h₁
    | cons u ts =>
      rw [List.map_cons, List.map_cons, List.intercalate_cons_cons, ← List.map_cons]
      simp only [List.mem_append, hs, h₁, h₂, or_self, not_false_eq_true]

theorem quote_not_mem_of_isName {s : String} (h : isName s = true) : '"' ∉ s.toList :=
  fun hm => absurd ((isName_iff.1 h).2.1 _ hm) (by decide)

theorem isDigit_of_mem_digits {n : Nat} {c : Char} (h : c ∈ Text.digits n) : isDigit c = true := by
  have hd := Nat.isDigit_of_mem_toDigits (by decide) (by decide) h
  simpa [Char.isDigit, isDigit, Char.le_def] using hd

theorem toList_text_int {n : Int64} (h : 0 ≤ n) :
    (Expr.int n).text.toList = Text.digits n.toInt.natAbs := by
  have hn : ¬ n.toInt < 0 := by
    have := Int64.le_iff_toInt_le.1 h
    simpa using this
  simp [Expr.text, Text.signedDecimal, if_neg hn, Text.decimal]

theorem quote_not_mem_digits (n : Nat) : '"' ∉ Text.digits n :=
  fun hm => absurd (isDigit_of_mem_digits hm) (by decide)

theorem quote_not_mem_sign (op : BinaryOp) : '"' ∉ op.sign.toList := by cases op <;> decide

/-- The canonical text of a plain program has no quotes. -/
theorem plainCases_quote :
    PlainCases (fun e => '"' ∉ e.text.toList) (fun s => '"' ∉ s.text.toList) where
  ident name h := quote_not_mem_of_isName h
  int n h := by
    rw [toList_text_int h]
    exact quote_not_mem_digits _
  bool b := by cases b <;> decide
  array es h := by
    have hs := quote_not_mem_joined [',', ' '] (Expr.texts es) (by decide)
      (by simpa [Expr.texts_eq_map] using fun e he => (h e he).2)
    simp [Expr.text, hs]
  hash ps h := by
    have hp : ∀ t ∈ Expr.pairTexts ps, '"' ∉ t.toList := by
      rw [Expr.pairTexts_eq_map]
      intro t ht
      obtain ⟨q, hq, rfl⟩ := List.mem_map.1 ht
      simp [(h q hq).1.2, (h q hq).2.2]
    have hs := quote_not_mem_joined [',', ' '] (Expr.pairTexts ps) (by decide) hp
    rw [Expr.text, hashText]
    split <;> simp [hs]
  function params body hp hb _ := by
    have hps := quote_not_mem_joined [',', ' '] params (by decide)
      fun x hx => quote_not_mem_of_isName (hp x hx)
    have hs := quote_not_mem_joined ['\n'] (Stmt.texts body) (by decide)
      (by simpa [Stmt.texts_eq_map] using fun s hs => (hb s hs).2)
    rw [Expr.text, functionText]
    split <;> simp [hps, hs]
  unary op e _ h := by
    cases op <;> simp [Expr.text, UnaryOp.sign, h]
  binary op l r _ hl _ hr := by
    simp [Expr.text, hl, hr, quote_not_mem_sign]
  call f args _ hf ha := by
    have hs := quote_not_mem_joined [',', ' '] (Expr.texts args) (by decide)
      (by simpa [Expr.texts_eq_map] using fun e he => (ha e he).2)
    simp [Expr.text, hf, hs]
  index e i _ he _ hi := by simp [Expr.text, he, hi]
  bind name e hn _ he := by simp [Stmt.text, he, quote_not_mem_of_isName hn]
  ret e _ he := by simp [Stmt.text, he]
  expr e _ he := he

end MonkeyLang
