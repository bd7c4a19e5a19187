/-
Each rule of the grammar is lawful, and a clean run of it is made of clean runs of its parts: one
fact a rule, which the proofs about reading use instead of the rule itself.
-/
import MonkeyLang.Proofs.Parse.Clean

namespace MonkeyLang.Parser

variable {α : Type}

/-! ## Lawfulness -/

section Lawful

instance lawful_skipSemicolon : Lawful skipSemicolon := by
  unfold skipSemicolon; infer_instance

instance lawful_moreItems (item : Parser α) [Lawful item] (m : Nat) : Lawful (moreItems item m) := by
  induction m with
  | zero => exact lawful_pure _
  | succ m ih => unfold moreItems; infer_instance

instance lawful_items (item : Parser α) [Lawful item] (close : Token.Kind) :
    Lawful (items item close) := by
  unfold items; infer_instance

instance lawful_integer : Lawful integer := by
  unfold integer
  refine @lawful_bind _ _ _ _ _ fun t => ?_
  exact lawful_ite ..

instance lawful_param : Lawful param := by
  unfold param; infer_instance

variable (expr : Precedence → Parser Expr) [∀ p, Lawful (expr p)]

instance lawful_bindStatement : Lawful (bindStatement expr) := by
  unfold bindStatement; infer_instance

instance lawful_returnStatement : Lawful (returnStatement expr) := by
  unfold returnStatement; infer_instance

instance lawful_expressionStatement : Lawful (expressionStatement expr) := by
  unfold expressionStatement; infer_instance

instance lawful_statement : Lawful (statement expr) := by
  unfold statement
  refine @lawful_bind _ _ _ _ _ fun t => ?_
  split <;> infer_instance

instance lawful_statements (stops : Token.Kind → Bool) (m : Nat) :
    Lawful (statements expr stops m) := by
  induction m with
  | zero => exact lawful_pure _
  | succ m ih => unfold statements; infer_instance

instance lawful_block : Lawful (block expr) := by
  unfold block; infer_instance

instance lawful_unary (op : UnaryOp) : Lawful (unary expr op) := by
  unfold unary; infer_instance

instance lawful_grouped : Lawful (grouped expr) := by
  unfold grouped; infer_instance

instance lawful_conditional : Lawful (conditional expr) := by
  unfold conditional
  -- the whole is too long for one search
  iterate 6 refine @lawful_bind _ _ _ _ _ fun _ => ?_
  infer_instance

instance lawful_function : Lawful (function expr) := by
  unfold function; infer_instance

instance lawful_nextExpr : Lawful (nextExpr expr) := by
  unfold nextExpr; infer_instance

instance lawful_array : Lawful (array expr) := by
  unfold array; infer_instance

instance lawful_pair : Lawful (pair expr) := by
  unfold pair; infer_instance

instance lawful_pairs (m : Nat) : Lawful (pairs expr m) := by
  induction m with
  | zero => exact lawful_noOperand
  | succ m ih => unfold pairs; infer_instance

instance lawful_hash : Lawful (hash expr) := by
  unfold hash; infer_instance

instance lawful_operand : Lawful (operand expr) := by
  unfold operand
  refine @lawful_bind _ _ _ _ _ fun t => ?_
  split <;> infer_instance

instance lawful_continued (left : Expr) (k : Continuation) : Lawful (continued expr left k) := by
  unfold continued
  split <;> infer_instance

instance lawful_climb (p : Precedence) (m : Nat) (left : Expr) : Lawful (climb expr p m left) := by
  induction m generalizing left with
  | zero => exact lawful_pure _
  | succ m ih =>
    unfold climb
    refine @lawful_bind _ _ _ _ _ fun t => ?_
    split <;> infer_instance

end Lawful

instance lawful_expr (m : Nat) (p : Precedence) : Lawful (expr m p) := by
  induction m generalizing p with
  | zero => exact lawful_noOperand
  | succ m ih => unfold expr; infer_instance

instance lawful_wholeProgram : Lawful wholeProgram := by
  unfold wholeProgram; infer_instance

/-! ## Lists -/

variable {n : Nat} {es : List ParseError} {ts ts' : List Token}

/-- What is left to read after a statement whose last token is the first of `ts`. -/
def pastSemicolon (ts : List Token) : List Token :=
  if headKind ts.tail = .semicolon then ts.tail else ts

@[simp] theorem reads_skipSemicolon {u : Unit} :
    Reads n es skipSemicolon ts u ts' ↔ ts' = pastSemicolon ts := by
  simp only [skipSemicolon, reads_bind, reads_nextIs, reads_ite, reads_advance, reads_pure,
    pastSemicolon]
  split <;> simp_all

@[simp] theorem reads_moreItems_zero {item : Parser α} {as : List α} :
    Reads n es (moreItems item 0) ts as ts' ↔ as = [] ∧ ts' = ts := reads_pure

theorem reads_moreItems_succ {item : Parser α} [Lawful item] {m : Nat} {as : List α} :
    Reads n es (moreItems item (m + 1)) ts as ts' ↔
      (headKind ts.tail = .comma ∧ ∃ a as' ts₁, as = a :: as' ∧ Reads n es item ts.tail a ts₁ ∧
        Reads n es (moreItems item m) ts₁ as' ts') ∨
      (headKind ts.tail ≠ .comma ∧ as = [] ∧ ts' = ts) := by
  simp only [moreItems, reads_bind, reads_nextIs, reads_ite, reads_advance, reads_pure]
  constructor
  · rintro ⟨b, _, ⟨rfl, rfl⟩, ⟨hb, _, _, rfl, a, ts₁, ha, as', _, has, rfl, rfl⟩ | ⟨hb, rfl, rfl⟩⟩
    · exact .inl ⟨by simpa using hb, a, as', ts₁, rfl, ha, has⟩
    · exact .inr ⟨by simpa using hb, rfl, rfl⟩
  · rintro (⟨hb, a, as', ts₁, rfl, ha, has⟩ | ⟨hb, rfl, rfl⟩)
    · exact ⟨_, _, ⟨rfl, rfl⟩, .inl ⟨by simpa using hb, (), _, rfl, a, ts₁, ha, as', _, has, rfl, rfl⟩⟩
    · exact ⟨_, _, ⟨rfl, rfl⟩, .inr ⟨by simpa using hb, rfl, rfl⟩⟩

theorem reads_items {item : Parser α} [Lawful item] {close : Token.Kind} {as : List α} :
    Reads n es (items item close) ts as ts' ↔
      (headKind ts.tail = close ∧ as = [] ∧ ts' = ts.tail) ∨
      (headKind ts.tail ≠ close ∧ ∃ a as' ts₁ ts₂, as = a :: as' ∧ Reads n es item ts a ts₁ ∧
        Reads n es (moreItems item ts₁.length) ts₁ as' ts₂ ∧ headKind ts₂.tail = close ∧
        ts' = ts₂.tail) := by
  simp only [items, reads_bind, reads_nextIs, reads_ite, reads_advance, reads_pure, reads_unread,
    reads_expect]
  constructor
  · rintro ⟨b, _, ⟨rfl, rfl⟩, ⟨hb, _, _, rfl, rfl, rfl⟩ |
      ⟨hb, a, ts₁, ha, _, _, ⟨rfl, rfl⟩, as', ts₂, has, _, _, ⟨hc, rfl⟩, rfl, rfl⟩⟩
    · exact .inl ⟨by simpa using hb, rfl, rfl⟩
    · exact .inr ⟨by simpa using hb, a, as', _, ts₂, rfl, ha, has, hc, rfl⟩
  · rintro (⟨hb, rfl, rfl⟩ | ⟨hb, a, as', ts₁, ts₂, rfl, ha, has, hc, rfl⟩)
    · exact ⟨_, _, ⟨rfl, rfl⟩, .inl ⟨by simpa using hb, (), _, rfl, rfl, rfl⟩⟩
    · exact ⟨_, _, ⟨rfl, rfl⟩, .inr ⟨by simpa using hb, a, ts₁, ha, _, _, ⟨rfl, rfl⟩, as', ts₂, has,
        (), _, ⟨hc, rfl⟩, rfl, rfl⟩⟩

theorem reads_param {name : String} :
    Reads n es param ts name ts' ↔
      headKind ts.tail = .ident ∧ name = headLiteral ts.tail ∧ ts' = ts.tail := by
  simp only [param, reads_bind, reads_expect, reads_current, reads_pure]
  constructor
  · rintro ⟨_, _, ⟨hk, rfl⟩, _, _, ⟨rfl, rfl⟩, rfl, rfl⟩
    exact ⟨hk, literal_headD _ n, rfl⟩
  · rintro ⟨hk, rfl, rfl⟩
    exact ⟨(), _, ⟨hk, rfl⟩, _, _, ⟨rfl, rfl⟩, (literal_headD _ n).symm, rfl⟩

/-! ## Statements -/

section Rules

variable {expr : Precedence → Parser Expr} [∀ p, Lawful (expr p)]

theorem reads_bindStatement {s : Stmt} :
    Reads n es (bindStatement expr) ts s ts' ↔
      headKind ts.tail = .ident ∧ headKind ts.tail.tail = .assign ∧ ∃ e ts₁,
        s = .bind (headLiteral ts.tail) e ∧
        Reads n es (expr .lowest) ts.tail.tail.tail e ts₁ ∧ ts' = pastSemicolon ts₁ := by
  simp only [bindStatement, reads_bind, reads_expect, reads_current, reads_advance,
    reads_skipSemicolon, reads_pure]
  constructor
  · rintro ⟨_, _, ⟨hi, rfl⟩, t, _, ⟨rfl, rfl⟩, _, _, ⟨ha, rfl⟩, _, _, rfl, e, ts₁, he, _, _, rfl, rfl, rfl⟩
    exact ⟨hi, ha, e, ts₁, by rw [literal_headD], he, rfl⟩
  · rintro ⟨hi, ha, e, ts₁, rfl, he, rfl⟩
    exact ⟨(), _, ⟨hi, rfl⟩, _, _, ⟨rfl, rfl⟩, (), _, ⟨ha, rfl⟩, (), _, rfl, e, ts₁, he, (), _, rfl,
      by rw [literal_headD], rfl⟩

theorem reads_returnStatement {s : Stmt} :
    Reads n es (returnStatement expr) ts s ts' ↔ ∃ e ts₁, s = .ret (some e) ∧
      Reads n es (expr .lowest) ts.tail e ts₁ ∧ ts' = pastSemicolon ts₁ := by
  simp only [returnStatement, reads_bind, reads_advance, reads_attempt, reads_skipSemicolon, reads_pure]
  constructor
  · rintro ⟨_, _, rfl, _, ts₁, ⟨e, rfl, he⟩, _, _, rfl, rfl, rfl⟩
    exact ⟨e, ts₁, rfl, he, rfl⟩
  · rintro ⟨e, ts₁, rfl, he, rfl⟩
    exact ⟨(), _, rfl, _, ts₁, ⟨e, rfl, he⟩, (), _, rfl, rfl, rfl⟩

theorem reads_expressionStatement {s : Stmt} :
    Reads n es (expressionStatement expr) ts s ts' ↔ ∃ e ts₁, s = .expr e ∧
      Reads n es (expr .lowest) ts e ts₁ ∧ ts' = pastSemicolon ts₁ := by
  simp only [expressionStatement, reads_bind, reads_skipSemicolon, reads_pure]
  constructor
  · rintro ⟨e, ts₁, he, _, _, rfl, rfl, rfl⟩
    exact ⟨e, ts₁, rfl, he, rfl⟩
  · rintro ⟨e, ts₁, rfl, he, rfl⟩
    exact ⟨e, ts₁, he, (), _, rfl, rfl, rfl⟩

omit [∀ p, Lawful (expr p)] in
theorem reads_statement {s : Stmt} :
    Reads n es (statement expr) ts s ts' ↔
      match headKind ts with
      | .letWord => Reads n es (bindStatement expr) ts s ts'
      | .returnWord => Reads n es (returnStatement expr) ts s ts'
      | _ => Reads n es (expressionStatement expr) ts s ts' := by
  have h : Reads n es (statement expr) ts s ts' ↔
      Reads n es (match (ts.headD (.endAt n)).kind with
        | .letWord => bindStatement expr
        | .returnWord => returnStatement expr
        | _ => expressionStatement expr) ts s ts' := Iff.rfl
  rw [h, kind_headD]
  split <;> rfl

omit [∀ p, Lawful (expr p)] in
@[simp] theorem reads_statements_zero {stops : Token.Kind → Bool} {ss : List Stmt} :
    Reads n es (statements expr stops 0) ts ss ts' ↔ ss = [] ∧ ts' = ts := reads_pure

theorem reads_statements_succ {stops : Token.Kind → Bool} {m : Nat} {ss : List Stmt} :
    Reads n es (statements expr stops (m + 1)) ts ss ts' ↔
      (stops (headKind ts) = true ∧ ss = [] ∧ ts' = ts) ∨
      (stops (headKind ts) = false ∧ ∃ s ss' ts₁, ss = s :: ss' ∧ Reads n es (statement expr) ts s ts₁ ∧
        Reads n es (statements expr stops m) ts₁.tail ss' ts') := by
  simp only [statements, reads_bind, reads_current, reads_ite, reads_attempt, reads_advance, reads_pure]
  constructor
  · rintro ⟨_, _, ⟨rfl, rfl⟩, ⟨hs, rfl, rfl⟩ |
      ⟨hs, _, ts₁, ⟨s, rfl, h₁⟩, _, _, rfl, ss', _, h₂, rfl, rfl⟩⟩
    · exact .inl ⟨by simpa only [kind_headD] using hs, rfl, rfl⟩
    · exact .inr ⟨by simpa only [kind_headD, Bool.not_eq_true] using hs, s, ss', ts₁, rfl, h₁, h₂⟩
  · rintro (⟨hs, rfl, rfl⟩ | ⟨hs, s, ss', ts₁, rfl, h₁, h₂⟩)
    · exact ⟨_, _, ⟨rfl, rfl⟩, .inl ⟨by simpa only [kind_headD] using hs, rfl, rfl⟩⟩
    · exact ⟨_, _, ⟨rfl, rfl⟩, .inr ⟨by simpa only [kind_headD, Bool.not_eq_true] using hs, _, ts₁,
        ⟨s, rfl, h₁⟩, (), _, rfl, ss', _, h₂, rfl, rfl⟩⟩

theorem reads_block {ss : List Stmt} :
    Reads n es (block expr) ts ss ts' ↔
      Reads n es (statements expr endsBlock ts.tail.length) ts.tail ss ts' := by
  simp only [block, reads_bind, reads_advance, reads_unread]
  constructor
  · rintro ⟨_, _, rfl, _, _, ⟨rfl, rfl⟩, h⟩
    exact h
  · intro h
    exact ⟨(), _, rfl, _, _, ⟨rfl, rfl⟩, h⟩

/-! ## Operands -/

theorem reads_integer {e : Expr} :
    Reads n es integer ts e ts' ↔
      Text.numeral (headLiteral ts).toList < Text.integerLimit ∧
      e = .int (Int64.ofNat (Text.numeral (headLiteral ts).toList)) ∧ ts' = ts := by
  simp only [integer, reads_bind, reads_current]
  constructor
  · rintro ⟨_, _, ⟨rfl, rfl⟩, h⟩
    rw [literal_headD] at h
    rcases reads_ite.1 h with ⟨hn, h⟩ | ⟨-, h⟩
    · obtain ⟨rfl, rfl⟩ := reads_pure.1 h
      exact ⟨hn, rfl, rfl⟩
    · exact absurd h not_reads_fail
  · rintro ⟨hn, rfl, rfl⟩
    refine ⟨_, _, ⟨rfl, rfl⟩, ?_⟩
    rw [literal_headD]
    exact reads_ite.2 (.inl ⟨hn, reads_pure.2 ⟨rfl, rfl⟩⟩)

theorem reads_unary {op : UnaryOp} {e : Expr} :
    Reads n es (unary expr op) ts e ts' ↔
      ∃ e', e = .unary op e' ∧ Reads n es (expr .unary) ts.tail e' ts' := by
  simp only [unary, reads_bind, reads_advance, reads_pure]
  constructor
  · rintro ⟨_, _, rfl, e', _, he, rfl, rfl⟩
    exact ⟨e', rfl, he⟩
  · rintro ⟨e', rfl, he⟩
    exact ⟨(), _, rfl, e', _, he, rfl, rfl⟩

theorem reads_grouped {e : Expr} :
    Reads n es (grouped expr) ts e ts' ↔ ∃ ts₁, Reads n es (expr .lowest) ts.tail e ts₁ ∧
      headKind ts₁.tail = .rightParen ∧ ts' = ts₁.tail := by
  simp only [grouped, reads_bind, reads_advance, reads_expect, reads_pure]
  constructor
  · rintro ⟨_, _, rfl, e', ts₁, he, _, _, ⟨hk, rfl⟩, rfl, rfl⟩
    exact ⟨ts₁, he, hk, rfl⟩
  · rintro ⟨ts₁, he, hk, rfl⟩
    exact ⟨(), _, rfl, e, ts₁, he, (), _, ⟨hk, rfl⟩, rfl, rfl⟩

/-- What follows the first block of a conditional whose last token is the first of `ts`. -/
inductive ReadsAlternative (n : Nat) (es : List ParseError) (expr : Precedence → Parser Expr) :
    List Token → Option (List Stmt) → List Token → Prop
  | none {ts : List Token} (h : headKind ts.tail ≠ .elseWord) : ReadsAlternative n es expr ts none ts
  | some {ts ts' : List Token} {ss : List Stmt} (h : headKind ts.tail = .elseWord)
      (hb : headKind ts.tail.tail = .leftBrace) (hs : Reads n es (block expr) ts.tail.tail ss ts') :
      ReadsAlternative n es expr ts (some ss) ts'

set_option synthInstance.maxSize 512 in
theorem reads_conditional {e : Expr} :
    Reads n es (conditional expr) ts e ts' ↔ ∃ c t a ts₁ ts₂, e = .cond c t a ∧
      headKind ts.tail = .leftParen ∧ Reads n es (expr .lowest) ts.tail.tail c ts₁ ∧
      headKind ts₁.tail = .rightParen ∧ headKind ts₁.tail.tail = .leftBrace ∧
      Reads n es (block expr) ts₁.tail.tail t ts₂ ∧ ReadsAlternative n es expr ts₂ a ts' := by
  simp only [conditional, reads_bind, reads_advance, reads_expect, reads_pure, reads_nextIs, reads_ite]
  constructor
  · rintro ⟨_, _, ⟨hp, rfl⟩, _, _, rfl, c, ts₁, hc, _, _, ⟨hq, rfl⟩, _, _, ⟨hb, rfl⟩, t, ts₂, ht, b, _,
      ⟨rfl, rfl⟩, ⟨he, _, _, rfl, _, _, ⟨hb', rfl⟩, a, _, ha, rfl, rfl⟩ | ⟨he, rfl, rfl⟩⟩
    · exact ⟨c, t, some a, ts₁, _, rfl, hp, hc, hq, hb, ht, .some (by simpa using he) hb' ha⟩
    · exact ⟨c, t, none, ts₁, _, rfl, hp, hc, hq, hb, ht, .none (by simpa using he)⟩
  · rintro ⟨c, t, a, ts₁, ts₂, rfl, hp, hc, hq, hb, ht, ha⟩
    refine ⟨(), _, ⟨hp, rfl⟩, (), _, rfl, c, ts₁, hc, (), _, ⟨hq, rfl⟩, (), _, ⟨hb, rfl⟩, t, ts₂, ht,
      _, _, ⟨rfl, rfl⟩, ?_⟩
    cases ha with
    | none he => exact .inr ⟨by simpa using he, rfl, rfl⟩
    | some he hb' hs => exact .inl ⟨by simpa using he, (), _, rfl, (), _, ⟨hb', rfl⟩, _, _, hs, rfl, rfl⟩

theorem reads_function {e : Expr} :
    Reads n es (function expr) ts e ts' ↔ ∃ ps b ts₁, e = .function ps b ∧
      headKind ts.tail = .leftParen ∧ Reads n es (items param .rightParen) ts.tail ps ts₁ ∧
      headKind ts₁.tail = .leftBrace ∧ Reads n es (block expr) ts₁.tail b ts' := by
  simp only [function, reads_bind, reads_expect, reads_pure]
  constructor
  · rintro ⟨_, _, ⟨hp, rfl⟩, ps, ts₁, hps, _, _, ⟨hb, rfl⟩, b, _, h, rfl, rfl⟩
    exact ⟨ps, b, ts₁, rfl, hp, hps, hb, h⟩
  · rintro ⟨ps, b, ts₁, rfl, hp, hps, hb, h⟩
    exact ⟨(), _, ⟨hp, rfl⟩, ps, ts₁, hps, (), _, ⟨hb, rfl⟩, b, _, h, rfl, rfl⟩

theorem reads_nextExpr {e : Expr} :
    Reads n es (nextExpr expr) ts e ts' ↔ Reads n es (expr .lowest) ts.tail e ts' := by
  simp only [nextExpr, reads_bind, reads_advance]
  constructor
  · rintro ⟨_, _, rfl, h⟩
    exact h
  · intro h
    exact ⟨(), _, rfl, h⟩

theorem reads_array {e : Expr} :
    Reads n es (array expr) ts e ts' ↔
      ∃ es', e = .array es' ∧ Reads n es (items (nextExpr expr) .rightBracket) ts es' ts' := by
  simp only [array, reads_bind, reads_pure]
  constructor
  · rintro ⟨es', _, h, rfl, rfl⟩
    exact ⟨es', rfl, h⟩
  · rintro ⟨es', rfl, h⟩
    exact ⟨es', _, h, rfl, rfl⟩

theorem reads_pair {p : Expr × Expr} :
    Reads n es (pair expr) ts p ts' ↔ ∃ ts₁, Reads n es (expr .lowest) ts.tail p.1 ts₁ ∧
      headKind ts₁.tail = .colon ∧ Reads n es (expr .lowest) ts₁.tail.tail p.2 ts' := by
  simp only [pair, reads_bind, reads_nextExpr, reads_expect, reads_pure]
  constructor
  · rintro ⟨k, ts₁, hk, _, _, ⟨hc, rfl⟩, v, _, hv, rfl, rfl⟩
    exact ⟨ts₁, hk, hc, hv⟩
  · rintro ⟨ts₁, hk, hc, hv⟩
    exact ⟨_, ts₁, hk, (), _, ⟨hc, rfl⟩, _, _, hv, rfl, rfl⟩

omit [∀ p, Lawful (expr p)] in
@[simp] theorem not_reads_pairs_zero {ps : List (Expr × Expr)} :
    ¬ Reads n es (pairs expr 0) ts ps ts' := not_reads_noOperand

/-- The token that the next pair, or the closing brace, comes after. -/
def pastComma (ts : List Token) : List Token :=
  if headKind ts.tail = .rightBrace then ts else ts.tail

theorem reads_pairs_succ {m : Nat} {ps : List (Expr × Expr)} :
    Reads n es (pairs expr (m + 1)) ts ps ts' ↔
      (headKind ts.tail = .rightBrace ∧ ps = [] ∧ ts' = ts) ∨
      (headKind ts.tail ≠ .rightBrace ∧ ∃ p ps' ts₁, ps = p :: ps' ∧ Reads n es (pair expr) ts p ts₁ ∧
        (headKind ts₁.tail = .rightBrace ∨ headKind ts₁.tail = .comma) ∧
        Reads n es (pairs expr m) (pastComma ts₁) ps' ts') := by
  simp only [pairs, reads_bind, reads_nextIs, reads_ite, reads_expect, reads_pure, Bool.not_eq_true',
    Bool.not_eq_true, pastComma]
  constructor
  · rintro ⟨_, _, ⟨rfl, rfl⟩, ⟨hb, rfl, rfl⟩ | ⟨hb, p, ts₁, hp, _, _, ⟨rfl, rfl⟩, h⟩⟩
    · exact .inl ⟨by simpa using hb, rfl, rfl⟩
    · refine .inr ⟨by simpa using hb, p, ?_⟩
      rcases h with ⟨hc, _, _, ⟨hk, rfl⟩, ps', _, hps, rfl, rfl⟩ | ⟨hc, ps', _, hps, rfl, rfl⟩
      · rw [beq_eq_false_iff_ne] at hc
        exact ⟨ps', _, rfl, hp, .inr hk, by rwa [if_neg hc]⟩
      · simp only [beq_eq_false_iff_ne, ne_eq, not_not] at hc
        exact ⟨ps', _, rfl, hp, .inl hc, by rwa [if_pos hc]⟩
  · rintro (⟨hb, rfl, rfl⟩ | ⟨hb, p, ps', ts₁, rfl, hp, hc, hps⟩)
    · exact ⟨_, _, ⟨rfl, rfl⟩, .inl ⟨by simpa using hb, rfl, rfl⟩⟩
    · refine ⟨_, _, ⟨rfl, rfl⟩, .inr ⟨by simpa using hb, p, ts₁, hp, _, _, ⟨rfl, rfl⟩, ?_⟩⟩
      split at hps
      · next hr => exact .inr ⟨by simpa using hr, ps', _, hps, rfl, rfl⟩
      · next hr => exact .inl ⟨by simpa using hr, (), _, ⟨hc.resolve_left hr, rfl⟩, ps', _, hps, rfl, rfl⟩

theorem reads_hash {e : Expr} :
    Reads n es (hash expr) ts e ts' ↔ ∃ ps ts₁, e = .hash ps ∧
      Reads n es (pairs expr ts.length) ts ps ts₁ ∧ headKind ts₁.tail = .rightBrace ∧ ts' = ts₁.tail := by
  simp only [hash, reads_bind, reads_unread, reads_expect, reads_pure]
  constructor
  · rintro ⟨_, _, ⟨rfl, rfl⟩, ps, ts₁, hps, _, _, ⟨hc, rfl⟩, rfl, rfl⟩
    exact ⟨ps, ts₁, rfl, hps, hc, rfl⟩
  · rintro ⟨ps, ts₁, rfl, hps, hc, rfl⟩
    exact ⟨_, _, ⟨rfl, rfl⟩, ps, ts₁, hps, (), _, ⟨hc, rfl⟩, rfl, rfl⟩

omit [∀ p, Lawful (expr p)] in
theorem reads_operand {e : Expr} :
    Reads n es (operand expr) ts e ts' ↔
      match headKind ts with
      | .ident => e = .ident (headLiteral ts) ∧ ts' = ts
      | .int => Reads n es integer ts e ts'
      | .string => e = .string (headLiteral ts) ∧ ts' = ts
      | .trueWord => e = .bool true ∧ ts' = ts
      | .falseWord => e = .bool false ∧ ts' = ts
      | .bang => Reads n es (unary expr .not) ts e ts'
      | .minus => Reads n es (unary expr .neg) ts e ts'
      | .leftParen => Reads n es (grouped expr) ts e ts'
      | .ifWord => Reads n es (conditional expr) ts e ts'
      | .functionWord => Reads n es (function expr) ts e ts'
      | .leftBracket => Reads n es (array expr) ts e ts'
      | .leftBrace => Reads n es (hash expr) ts e ts'
      | _ => False := by
  have h : Reads n es (operand expr) ts e ts' ↔
      Reads n es (match (ts.headD (.endAt n)).kind with
        | .ident => pure (.ident (ts.headD (.endAt n)).literal)
        | .int => integer
        | .string => pure (.string (ts.headD (.endAt n)).literal)
        | .trueWord => pure (.bool true)
        | .falseWord => pure (.bool false)
        | .bang => unary expr .not
        | .minus => unary expr .neg
        | .leftParen => grouped expr
        | .ifWord => conditional expr
        | .functionWord => function expr
        | .leftBracket => array expr
        | .leftBrace => hash expr
        | _ => noOperand) ts e ts' := Iff.rfl
  rw [h, kind_headD, literal_headD]
  split <;> simp only [reads_pure, not_reads_noOperand]

/-! ## Continuations -/

theorem reads_continued_operator {op : BinaryOp} {left e : Expr} :
    Reads n es (continued expr left (.operator op)) ts e ts' ↔
      ∃ r, e = .binary op left r ∧ Reads n es (expr op.precedence) ts.tail r ts' := by
  simp only [continued, reads_bind, reads_advance, reads_pure]
  constructor
  · rintro ⟨_, _, rfl, r, _, hr, rfl, rfl⟩
    exact ⟨r, rfl, hr⟩
  · rintro ⟨r, rfl, hr⟩
    exact ⟨(), _, rfl, r, _, hr, rfl, rfl⟩

theorem reads_continued_call {left e : Expr} :
    Reads n es (continued expr left .call) ts e ts' ↔
      ∃ as, e = .call left as ∧ Reads n es (items (nextExpr expr) .rightParen) ts as ts' := by
  simp only [continued, reads_bind, reads_pure]
  constructor
  · rintro ⟨as, _, h, rfl, rfl⟩
    exact ⟨as, rfl, h⟩
  · rintro ⟨as, rfl, h⟩
    exact ⟨as, _, h, rfl, rfl⟩

theorem reads_continued_index {left e : Expr} :
    Reads n es (continued expr left .index) ts e ts' ↔ ∃ k ts₁, e = .index left k ∧
      Reads n es (expr .lowest) ts.tail k ts₁ ∧ headKind ts₁.tail = .rightBracket ∧
      ts' = ts₁.tail := by
  simp only [continued, reads_bind, reads_nextExpr, reads_expect, reads_pure]
  constructor
  · rintro ⟨k, ts₁, hk, _, _, ⟨hc, rfl⟩, rfl, rfl⟩
    exact ⟨k, ts₁, rfl, hk, hc, rfl⟩
  · rintro ⟨k, ts₁, rfl, hk, hc, rfl⟩
    exact ⟨k, ts₁, hk, (), _, ⟨hc, rfl⟩, rfl, rfl⟩

omit [∀ p, Lawful (expr p)] in
@[simp] theorem reads_climb_zero {p : Precedence} {left e : Expr} :
    Reads n es (climb expr p 0 left) ts e ts' ↔ e = left ∧ ts' = ts := reads_pure

theorem reads_climb_succ {p : Precedence} {m : Nat} {left e : Expr} :
    Reads n es (climb expr p (m + 1) left) ts e ts' ↔
      match Continuation.ofKind? (headKind ts.tail) with
      | none => e = left ∧ ts' = ts
      | some k =>
        (p < k.precedence ∧ ∃ l ts₁, Reads n es (continued expr left k) ts.tail l ts₁ ∧
          Reads n es (climb expr p m l) ts₁ e ts') ∨
        (¬ p < k.precedence ∧ e = left ∧ ts' = ts) := by
  have h : Reads n es (climb expr p (m + 1) left) ts e ts' ↔
      Reads n es (match Continuation.ofKind? (ts.tail.headD (.endAt n)).kind with
        | none => pure left
        | some k =>
          if p < k.precedence then advance >>= fun _ => continued expr left k >>= climb expr p m
          else pure left) ts e ts' := Iff.rfl
  rw [h, kind_headD]
  split
  · exact reads_pure
  · simp only [reads_ite, reads_bind, reads_advance, reads_pure]
    constructor
    · rintro (⟨hp, _, _, rfl, l, ts₁, hl, he⟩ | h)
      · exact .inl ⟨hp, l, ts₁, hl, he⟩
      · exact .inr h
    · rintro (⟨hp, l, ts₁, hl, he⟩ | h)
      · exact .inl ⟨hp, (), _, rfl, l, ts₁, hl, he⟩
      · exact .inr h

end Rules

@[simp] theorem not_reads_expr_zero {p : Precedence} {e : Expr} :
    ¬ Reads n es (expr 0 p) ts e ts' := not_reads_noOperand

theorem reads_expr_succ {m : Nat} {p : Precedence} {e : Expr} :
    Reads n es (expr (m + 1) p) ts e ts' ↔ ∃ l ts₁, Reads n es (operand (expr m)) ts l ts₁ ∧
      Reads n es (climb (expr m) p ts₁.length l) ts₁ e ts' := by
  simp only [expr, reads_bind, reads_unread]
  constructor
  · rintro ⟨l, ts₁, hl, _, _, ⟨rfl, rfl⟩, he⟩
    exact ⟨l, _, hl, he⟩
  · rintro ⟨l, ts₁, hl, he⟩
    exact ⟨l, ts₁, hl, _, _, ⟨rfl, rfl⟩, he⟩

theorem reads_wholeProgram {ss : List Stmt} :
    Reads n es wholeProgram ts ss ts' ↔
      Reads n es (statements (expr ts.length) (· == .endOfInput) ts.length) ts ss ts' := by
  simp only [wholeProgram, reads_bind, reads_unread]
  constructor
  · rintro ⟨_, _, ⟨rfl, rfl⟩, h⟩
    exact h
  · intro h
    exact ⟨_, _, ⟨rfl, rfl⟩, h⟩

end MonkeyLang.Parser
