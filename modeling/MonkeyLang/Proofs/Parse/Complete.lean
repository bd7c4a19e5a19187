/-
What is derivable is read without an error. A reader decides by the next token where the grammar
leaves a choice, so the proofs rest on what can come first (`startsOperand`, `startsStatement`) and
on what can follow: an expression is never followed by an `else`, nor a statement by a semicolon that
it did not take. As for soundness, the rules are complete whenever the reader for the expressions
inside them is (`Complete`), on as many tokens as its bound allows.
-/
import MonkeyLang.Proofs.Parse.Operations
import MonkeyLang.Proofs.Parse.Rules

namespace MonkeyLang

namespace Grammar

variable {ts rest : List Token}

/-! ## What comes first -/

def startsOperand : Token.Kind → Bool
  | .ident | .int | .string | .trueWord | .falseWord | .bang | .minus | .leftParen | .ifWord
  | .functionWord | .leftBracket | .leftBrace => true
  | _ => false

def startsStatement (k : Token.Kind) : Bool := k == .letWord || k == .returnWord || startsOperand k

theorem startsOperand_of_derives_primary (h : Derives .primary ts rest) :
    startsOperand (headKind ts) = true := by
  rcases derives_primary.1 h with ⟨hk | hk | hk | hk, -⟩ | ⟨hk, -⟩ | ⟨hk, -⟩ | ⟨hk, -⟩ | ⟨hk, -⟩ |
    ⟨hk, -⟩ | ⟨hk, -⟩ <;> rw [hk] <;> rfl

theorem startsOperand_of_derives_unary (h : Derives .unary ts rest) :
    startsOperand (headKind ts) = true := by
  rcases derives_unary.1 h with ⟨hk | hk, -⟩ | h
  · rw [hk]; rfl
  · rw [hk]; rfl
  · obtain ⟨⟨mid, hp, -⟩, -⟩ := derives_suffixed.1 h
    exact startsOperand_of_derives_primary hp

theorem startsOperand_of_derives_expression (h : Derives .expression ts rest) :
    startsOperand (headKind ts) = true := by
  obtain ⟨⟨mid, hu, -⟩, -⟩ := derives_expression.1 h
  exact startsOperand_of_derives_unary hu

theorem startsStatement_of_derives (h : Derives .statement ts rest) :
    startsStatement (headKind ts) = true := by
  rcases derives_statement.1 h with ⟨hk, -⟩ | ⟨hk, -⟩ | ⟨mid, he, -⟩
  · rw [hk]; rfl
  · rw [hk]; rfl
  · simp [startsStatement, startsOperand_of_derives_expression he]

theorem headKind_ne_of_startsOperand {k : Token.Kind} (h : startsOperand (headKind ts) = true)
    (hk : startsOperand k = false) : headKind ts ≠ k := by
  rintro rfl; rw [h] at hk; cases hk

theorem headKind_ne_of_startsStatement {k : Token.Kind} (h : startsStatement (headKind ts) = true)
    (hk : startsStatement k = false) : headKind ts ≠ k := by
  rintro rfl; rw [h] at hk; cases hk

/-! ## What comes next -/

theorem Operations.headKind_ne_else {p : Precedence} (h : Operations p ts rest)
    (hr : headKind rest ≠ .elseWord) : headKind ts ≠ .elseWord := by
  cases h with
  | stop _ => exact hr
  | step hk _ _ _ => intro he; rw [he] at hk; cases hk

theorem headKind_ne_else_of_suffixes (h : Derives .suffixes ts rest)
    (hr : headKind rest ≠ .elseWord) : headKind ts ≠ .elseWord := by
  rcases derives_suffixes.1 h with rfl | ⟨hk, -⟩ | ⟨hk, -⟩
  · exact hr
  · rw [hk]; decide
  · rw [hk]; decide

theorem headKind_ne_else_of_terminator (h : Derives .terminator ts rest)
    (hr : headKind rest ≠ .elseWord) : headKind ts ≠ .elseWord := by
  rcases derives_terminator.1 h with rfl | ⟨hk, -⟩
  · exact hr
  · rw [hk]; decide

theorem headKind_ne_else_of_moreExpressions (h : Derives .moreExpressions ts rest)
    (hr : headKind rest ≠ .elseWord) : headKind ts ≠ .elseWord := by
  rcases derives_moreExpressions.1 h with rfl | ⟨hk, -⟩
  · exact hr
  · rw [hk]; decide

theorem headKind_of_trailingComma (h : Derives .trailingComma ts rest)
    (hr : headKind rest = .rightBrace) : headKind ts = .rightBrace ∨ headKind ts = .comma := by
  rcases derives_trailingComma.1 h with rfl | ⟨hk, -⟩
  · exact .inl hr
  · exact .inr hk

theorem headKind_of_morePairs {mid : List Token} (h : Derives .morePairs ts mid)
    (hc : Derives .trailingComma mid rest) (hr : headKind rest = .rightBrace) :
    headKind ts = .rightBrace ∨ headKind ts = .comma := by
  rcases derives_morePairs.1 h with rfl | ⟨hk, -⟩
  · exact headKind_of_trailingComma hc hr
  · exact .inr hk

end Grammar

namespace Parser

open Grammar

/-- The reader of expressions takes every chain of at most `m` tokens that no `else` follows. -/
def Complete (n : Nat) (es : List ParseError) (m : Nat) (expr : Precedence → Parser Expr) : Prop :=
  ∀ ⦃p ts rest⦄, p ≤ .unary → ts.length ≤ m → Chain p ts rest → headKind rest ≠ .elseWord →
    ∃ e ts', Reads n es (expr p) ts e ts' ∧ ts'.tail = rest

variable {n : Nat} {es : List ParseError} {ts rest : List Token}

section Rules

variable {expr : Precedence → Parser Expr} [∀ p, Lawful (expr p)] {m : Nat}

omit [∀ p, Lawful (expr p)] in
theorem Complete.expression (hc : Complete n es m expr) (hm : ts.length ≤ m)
    (h : Derives .expression ts rest) (hr : headKind rest ≠ .elseWord) :
    ∃ e ts', Reads n es (expr .lowest) ts e ts' ∧ ts'.tail = rest :=
  hc (Precedence.lowest_le _) hm (chain_lowest_iff.2 h) hr

/-! ## Statements -/

theorem tail_pastSemicolon (h : Derives .terminator ts.tail rest) (hr : headKind rest ≠ .semicolon) :
    (pastSemicolon ts).tail = rest := by
  unfold pastSemicolon
  rcases derives_terminator.1 h with rfl | ⟨hk, rfl⟩
  · rw [if_neg hr]
  · rw [if_pos hk]

/-- What can start an operand starts no other statement than an expression. -/
theorem reads_statement_of_expr {e : Expr} {ts' : List Token} (hs : startsOperand (headKind ts) = true)
    (h : Reads n es (expr .lowest) ts e ts') : Reads n es (statement expr) ts (.expr e) (pastSemicolon ts') := by
  rw [reads_statement]
  split
  · rename_i hk; rw [hk] at hs; cases hs
  · rename_i hk; rw [hk] at hs; cases hs
  · exact reads_expressionStatement.2 ⟨e, ts', rfl, h, rfl⟩

theorem statement_complete (hc : Complete n es m expr) (hm : ts.length ≤ m)
    (h : Derives .statement ts rest) (hr : headKind rest ≠ .semicolon)
    (hr' : headKind rest ≠ .elseWord) : ∃ s ts', Reads n es (statement expr) ts s ts' ∧ ts'.tail = rest := by
  rcases derives_statement.1 h with ⟨hk, hi, ha, mid, he, ht⟩ | ⟨hk, mid, he, ht⟩ | ⟨mid, he, ht⟩
  · have hle : ts.tail.tail.tail.length ≤ m := by simp only [List.length_tail]; omega
    obtain ⟨e, ts₁, h₁, rfl⟩ := hc.expression hle he (headKind_ne_else_of_terminator ht hr')
    simp only [reads_statement, hk]
    exact ⟨_, _, reads_bindStatement.2 ⟨hi, ha, e, ts₁, rfl, h₁, rfl⟩, tail_pastSemicolon ht hr⟩
  · have hle : ts.tail.length ≤ m := by simp only [List.length_tail]; omega
    obtain ⟨e, ts₁, h₁, rfl⟩ := hc.expression hle he (headKind_ne_else_of_terminator ht hr')
    simp only [reads_statement, hk]
    exact ⟨_, _, reads_returnStatement.2 ⟨e, ts₁, rfl, h₁, rfl⟩, tail_pastSemicolon ht hr⟩
  · have hs := startsOperand_of_derives_expression he
    obtain ⟨e, ts₁, h₁, rfl⟩ := hc.expression hm he (headKind_ne_else_of_terminator ht hr')
    exact ⟨.expr e, pastSemicolon ts₁, reads_statement_of_expr hs h₁, tail_pastSemicolon ht hr⟩

/-- The tokens that end a sequence of statements neither begin a statement nor go on with one. -/
structure Delimits (stops : Token.Kind → Bool) : Prop where
  of_startsStatement : ∀ k, startsStatement k = true → stops k = false
  semicolon : stops .semicolon = false
  elseWord : stops .elseWord = false

theorem delimits_endsBlock : Delimits endsBlock where
  of_startsStatement k := by cases k <;> decide
  semicolon := rfl
  elseWord := rfl

theorem delimits_endOfInput : Delimits (· == .endOfInput) where
  of_startsStatement k := by cases k <;> decide
  semicolon := rfl
  elseWord := rfl

theorem statements_complete (hc : Complete n es m expr) {stops : Token.Kind → Bool}
    (hd : Delimits stops) (hr : stops (headKind rest) = true) {l : Nat} (hl : ts.length ≤ l)
    (hm : ts.length ≤ m) (h : Derives .statements ts rest) :
    ∃ ss, Reads n es (statements expr stops l) ts ss rest := by
  induction l generalizing ts with
  | zero =>
    obtain rfl := List.length_eq_zero_iff.1 (Nat.le_zero.1 hl)
    obtain rfl := List.suffix_nil.1 h.suffix
    exact ⟨[], reads_statements_zero.2 ⟨rfl, rfl⟩⟩
  | succ l ih =>
    simp only [reads_statements_succ]
    rcases derives_statements.1 h with rfl | ⟨mid, h₁, h₂⟩
    · exact ⟨[], .inl ⟨hr, rfl, rfl⟩⟩
    · have hs := hd.of_startsStatement _ (startsStatement_of_derives h₁)
      have hmid : stops (headKind mid) = true ∨ startsStatement (headKind mid) = true := by
        rcases derives_statements.1 h₂ with rfl | ⟨_, h, _⟩
        · exact .inl hr
        · exact .inr (startsStatement_of_derives h)
      have hne : headKind mid ≠ .semicolon ∧ headKind mid ≠ .elseWord := by
        rcases hmid with hk | hk
        · constructor
          · intro e; rw [e, hd.semicolon] at hk; cases hk
          · intro e; rw [e, hd.elseWord] at hk; cases hk
        · exact ⟨headKind_ne_of_startsStatement hk rfl, headKind_ne_of_startsStatement hk rfl⟩
      obtain ⟨s, ts₁, hs₁, rfl⟩ := statement_complete hc hm h₁ hne.1 hne.2
      have hle := hs₁.suffix.length_le
      obtain ⟨ss, hss⟩ := ih (by rw [List.length_tail]; omega) (by rw [List.length_tail]; omega) h₂
      exact ⟨s :: ss, .inr ⟨hs, s, ss, ts₁, rfl, hs₁, hss⟩⟩

theorem block_complete (hc : Complete n es m expr) (hm : ts.tail.length ≤ m)
    (h : Derives .block ts rest) : ∃ ss ts', Reads n es (block expr) ts ss ts' ∧ ts'.tail = rest := by
  simp only [reads_block]
  obtain ⟨-, mid, hd, ⟨hk, rfl⟩ | ⟨rfl, rfl⟩⟩ := derives_block.1 h
  · obtain ⟨ss, hss⟩ := statements_complete hc delimits_endsBlock (by rw [hk]; rfl) (Nat.le_refl _) hm hd
    exact ⟨ss, mid, hss, rfl⟩
  · obtain ⟨ss, hss⟩ := statements_complete hc delimits_endsBlock rfl (Nat.le_refl _) hm hd
    exact ⟨ss, [], hss, rfl⟩

/-! ## Lists -/

theorem moreItems_complete (hc : Complete n es m expr) (hr : headKind rest ≠ .comma)
    (hr' : headKind rest ≠ .elseWord) {l : Nat} (hl : ts.length ≤ l) (hm : ts.length ≤ m)
    (h : Derives .moreExpressions ts.tail rest) :
    ∃ as ts', Reads n es (moreItems (nextExpr expr) l) ts as ts' ∧ ts'.tail = rest := by
  induction l generalizing ts with
  | zero =>
    obtain rfl := List.length_eq_zero_iff.1 (Nat.le_zero.1 hl)
    obtain rfl := List.suffix_nil.1 h.suffix
    exact ⟨[], [], reads_moreItems_zero.2 ⟨rfl, rfl⟩, rfl⟩
  | succ l ih =>
    simp only [reads_moreItems_succ]
    rcases derives_moreExpressions.1 h with rfl | ⟨hk, mid, h₁, h₂⟩
    · exact ⟨[], ts, .inr ⟨hr, rfl, rfl⟩, rfl⟩
    · have hle : ts.tail.tail.length ≤ m := by simp only [List.length_tail]; omega
      obtain ⟨a, ts₁, ha, rfl⟩ := hc.expression hle h₁ (headKind_ne_else_of_moreExpressions h₂ hr')
      have hlt := ha.suffix.length_le
      simp only [List.length_tail] at hlt
      obtain ⟨as, ts', has, ht⟩ := ih (by omega) (by omega) h₂
      exact ⟨a :: as, ts', .inl ⟨hk, a, as, ts₁, rfl, reads_nextExpr.2 ha, has⟩, ht⟩

theorem items_complete (hc : Complete n es m expr) {close : Token.Kind} (hk : headKind rest = close)
    (hcomma : close ≠ .comma) (helse : close ≠ .elseWord) (hfirst : startsOperand close = false)
    (hm : ts.tail.length ≤ m) (h : Derives .expressions ts.tail rest) :
    ∃ as, Reads n es (items (nextExpr expr) close) ts as rest := by
  simp only [reads_items]
  rcases derives_expressions.1 h with rfl | ⟨mid, h₁, h₂⟩
  · exact ⟨[], .inl ⟨hk, rfl, rfl⟩⟩
  · have hne := headKind_ne_of_startsOperand (startsOperand_of_derives_expression h₁) hfirst
    obtain ⟨a, ts₁, ha, rfl⟩ := hc.expression hm h₁
      (headKind_ne_else_of_moreExpressions h₂ (by rwa [hk]))
    obtain ⟨as, ts₂, has, rfl⟩ := moreItems_complete hc (by rwa [hk]) (by rwa [hk]) (Nat.le_refl _)
      (Nat.le_trans ha.suffix.length_le hm) h₂
    exact ⟨a :: as, .inr ⟨hne, a, as, ts₁, ts₂, rfl, reads_nextExpr.2 ha, has, hk, rfl⟩⟩

theorem moreParams_complete (hr : headKind rest ≠ .comma) {l : Nat} (hl : ts.length ≤ l)
    (h : Derives .moreParams ts.tail rest) :
    ∃ names ts', Reads n es (moreItems param l) ts names ts' ∧ ts'.tail = rest := by
  induction l generalizing ts with
  | zero =>
    obtain rfl := List.length_eq_zero_iff.1 (Nat.le_zero.1 hl)
    obtain rfl := List.suffix_nil.1 h.suffix
    exact ⟨[], [], reads_moreItems_zero.2 ⟨rfl, rfl⟩, rfl⟩
  | succ l ih =>
    simp only [reads_moreItems_succ]
    rcases derives_moreParams.1 h with rfl | ⟨hk, hi, h⟩
    · exact ⟨[], ts, .inr ⟨hr, rfl, rfl⟩, rfl⟩
    · obtain ⟨names, ts', hns, ht⟩ := ih (by simp only [List.length_tail]; omega) h
      exact ⟨_, ts', .inl ⟨hk, _, names, _, rfl, reads_param.2 ⟨hi, rfl, rfl⟩, hns⟩, ht⟩

theorem params_complete (hk : headKind rest = .rightParen) (h : Derives .params ts.tail rest) :
    ∃ names, Reads n es (items param .rightParen) ts names rest := by
  simp only [reads_items]
  rcases derives_params.1 h with rfl | ⟨hi, h⟩
  · exact ⟨[], .inl ⟨hk, rfl, rfl⟩⟩
  · obtain ⟨names, ts₂, hns, rfl⟩ : ∃ names ts', Reads n es (moreItems param ts.tail.length) ts.tail
        names ts' ∧ ts'.tail = rest := moreParams_complete (by rw [hk]; decide) (Nat.le_refl _) h
    exact ⟨_, .inr ⟨by rw [hi]; decide, _, names, _, ts₂, rfl, reads_param.2 ⟨hi, rfl, rfl⟩, hns, hk, rfl⟩⟩

theorem pair_complete (hc : Complete n es m expr) (hm : ts.tail.length ≤ m) (h : Derives .pair ts.tail rest)
    (hr : headKind rest ≠ .elseWord) :
    ∃ q ts', Reads n es (pair expr) ts q ts' ∧ ts'.tail = rest ∧ ts'.length ≤ ts.tail.length := by
  obtain ⟨mid, hk, hcolon, hv⟩ := derives_pair.1 h
  obtain ⟨k, ts₁, h₁, rfl⟩ := hc.expression hm hk (by rw [hcolon]; decide)
  have hlt := h₁.suffix.length_le
  have hle₁ : ts₁.tail.tail.length ≤ m := by simp only [List.length_tail]; omega
  obtain ⟨v, ts₂, h₂, rfl⟩ := hc.expression hle₁ hv hr
  have hlt₂ := h₂.suffix.length_le
  simp only [List.length_tail] at hlt₂
  exact ⟨(k, v), ts₂, reads_pair.2 ⟨ts₁, h₁, hcolon, h₂⟩, rfl, by omega⟩

/-- At the closing brace there are no further pairs; the brace itself is why the bound is not used up. -/
theorem reads_pairs_done {l : Nat} (hl : ts.length ≤ l) (hk : headKind ts.tail = .rightBrace) :
    Reads n es (pairs expr l) ts [] ts := by
  cases l with
  | zero =>
    obtain rfl := List.length_eq_zero_iff.1 (Nat.le_zero.1 hl)
    cases hk
  | succ l => exact reads_pairs_succ.2 (.inl ⟨hk, rfl, rfl⟩)

theorem somePairs_complete (hc : Complete n es m expr) (hr : headKind rest = .rightBrace) {l : Nat}
    (hl : ts.length ≤ l) (hm : ts.tail.length ≤ m) {mid mid' : List Token} (h : Derives .pair ts.tail mid)
    (hmore : Derives .morePairs mid mid') (hcomma : Derives .trailingComma mid' rest) :
    ∃ qs ts', Reads n es (pairs expr l) ts qs ts' ∧ ts'.tail = rest := by
  induction l generalizing ts mid with
  | zero =>
    obtain rfl := List.length_eq_zero_iff.1 (Nat.le_zero.1 hl)
    obtain ⟨_, hk, -⟩ := derives_pair.1 h
    exact absurd (startsOperand_of_derives_expression hk) (by decide)
  | succ l ih =>
    simp only [reads_pairs_succ]
    obtain ⟨_, hk, -⟩ := derives_pair.1 h
    have hne : headKind ts.tail ≠ .rightBrace :=
      headKind_ne_of_startsOperand (startsOperand_of_derives_expression hk) rfl
    have hmid := headKind_of_morePairs hmore hcomma hr
    obtain ⟨q, ts₁, hq, rfl, hlt⟩ := pair_complete hc hm h
      (by rcases hmid with hk | hk <;> rw [hk] <;> decide)
    rw [List.length_tail] at hlt
    -- after the pair: its last token is current, and a brace or a comma comes next
    suffices hrec : ∃ qs ts', Reads n es (pairs expr l) (pastComma ts₁) qs ts' ∧ ts'.tail = rest by
      obtain ⟨qs, ts', hqs, ht⟩ := hrec
      exact ⟨q :: qs, ts', .inr ⟨hne, q, qs, ts₁, rfl, hq, hmid, hqs⟩, ht⟩
    rcases derives_morePairs.1 hmore with rfl | ⟨hk', mid₂, h₂, hmore₂⟩
    · rcases derives_trailingComma.1 hcomma with rfl | ⟨hk', rfl⟩
      · rw [pastComma, if_pos hr]
        exact ⟨[], ts₁, reads_pairs_done (by omega) hr, rfl⟩
      · rw [pastComma, if_neg (by rw [hk']; decide)]
        exact ⟨[], ts₁.tail, reads_pairs_done (by rw [List.length_tail]; omega) hr, rfl⟩
    · rw [pastComma, if_neg (by rw [hk']; decide)]
      exact ih (by rw [List.length_tail]; omega) (by simp only [List.length_tail] at hm ⊢; omega) h₂ hmore₂

theorem pairs_complete (hc : Complete n es m expr) (hr : headKind rest = .rightBrace)
    (hm : ts.tail.length ≤ m) (h : Derives .pairs ts.tail rest) :
    ∃ qs ts', Reads n es (pairs expr ts.length) ts qs ts' ∧ ts'.tail = rest := by
  rcases derives_pairs.1 h with rfl | ⟨mid, hq, mid', hmore, hcomma⟩
  · exact ⟨[], ts, reads_pairs_done (Nat.le_refl _) hr, rfl⟩
  · exact somePairs_complete hc hr (Nat.le_refl _) hm hq hmore hcomma

/-! ## Operands -/

theorem alternative_complete (hc : Complete n es m expr) (hm : ts.length ≤ m)
    (h : Derives .alternative ts.tail rest) (hr : headKind rest ≠ .elseWord) :
    ∃ a ts', ReadsAlternative n es expr ts a ts' ∧ ts'.tail = rest := by
  rcases derives_alternative.1 h with rfl | ⟨hk, hb⟩
  · exact ⟨none, ts, .none hr, rfl⟩
  · obtain ⟨hbrace, -⟩ := derives_block.1 hb
    obtain ⟨ss, ts', hss, ht⟩ := block_complete hc (by simp only [List.length_tail]; omega) hb
    exact ⟨some ss, ts', .some hk hbrace hss, ht⟩

theorem primary_complete (hc : Complete n es m expr) (hm : ts.length ≤ m + 1)
    (h : Derives .primary ts rest) (hr : headKind rest ≠ .elseWord) :
    ∃ e ts', Reads n es (operand expr) ts e ts' ∧ ts'.tail = rest := by
  simp only [reads_operand]
  have hle : ts.tail.length ≤ m := by rw [List.length_tail]; omega
  rcases derives_primary.1 h with ⟨hk | hk | hk | hk, rfl⟩ | ⟨hk, hn, rfl⟩ | ⟨hk, mid, he, hp, rfl⟩ |
    ⟨hk, hl, mid, he, hp, mid', hb, ha⟩ | ⟨hk, hl, mid, hps, hp, hb⟩ | ⟨hk, mid, hes, hp, rfl⟩ |
    ⟨hk, mid, hqs, hp, rfl⟩
  · simp only [hk]; exact ⟨_, ts, ⟨rfl, rfl⟩, rfl⟩
  · simp only [hk]; exact ⟨_, ts, ⟨rfl, rfl⟩, rfl⟩
  · simp only [hk]; exact ⟨_, ts, ⟨rfl, rfl⟩, rfl⟩
  · simp only [hk]; exact ⟨_, ts, ⟨rfl, rfl⟩, rfl⟩
  · simp only [hk]
    exact ⟨_, ts, reads_integer.2 ⟨by rw [Text.integerLimit]; omega, rfl, rfl⟩, rfl⟩
  · simp only [hk]
    obtain ⟨e, ts₁, h₁, rfl⟩ := hc.expression hle he (by rw [hp]; decide)
    exact ⟨e, _, reads_grouped.2 ⟨ts₁, h₁, hp, rfl⟩, rfl⟩
  · -- a conditional: each part leaves fewer tokens to the next
    simp only [hk]
    have hle' : ts.tail.tail.length ≤ m := by simp only [List.length_tail]; omega
    obtain ⟨c, ts₁, h₁, rfl⟩ := hc.expression hle' he (by rw [hp]; decide)
    have hlt₁ := h₁.suffix.length_le
    obtain ⟨hbrace, -⟩ := derives_block.1 hb
    obtain ⟨t, ts₂, h₂, rfl⟩ := block_complete hc (by simp only [List.length_tail] at hlt₁ ⊢; omega) hb
    have hlt₂ := h₂.suffix.length_le
    obtain ⟨a, ts', h₃, ht⟩ := alternative_complete hc
      (by simp only [List.length_tail] at hlt₁ hlt₂; omega) ha hr
    exact ⟨_, ts', reads_conditional.2 ⟨c, t, a, ts₁, ts₂, rfl, hl, h₁, hp, hbrace, h₂, h₃⟩, ht⟩
  · simp only [hk]
    obtain ⟨names, h₁⟩ : ∃ names, Reads n es (items param .rightParen) ts.tail names mid :=
      params_complete hp hps
    have hlt₁ := h₁.suffix.length_le
    obtain ⟨hbrace, -⟩ := derives_block.1 hb
    obtain ⟨b, ts', h₂, ht⟩ := block_complete hc (by simp only [List.length_tail] at hlt₁ ⊢; omega) hb
    exact ⟨_, ts', reads_function.2 ⟨names, b, mid, rfl, hl, h₁, hbrace, h₂⟩, ht⟩
  · simp only [hk]
    obtain ⟨as, h₁⟩ := items_complete hc hp (by decide) (by decide) rfl hle hes
    exact ⟨_, mid, reads_array.2 ⟨as, rfl, h₁⟩, rfl⟩
  · simp only [hk]
    obtain ⟨qs, ts₁, h₁, rfl⟩ := pairs_complete hc hp hle hqs
    exact ⟨_, _, reads_hash.2 ⟨qs, ts₁, rfl, h₁, hp, rfl⟩, rfl⟩

/-! ## Continuations -/

theorem climb_complete (hc : Complete n es m expr) {p : Precedence} (hpu : p ≤ .unary) {l : Nat}
    (hl : ts.length ≤ l) (hm : ts.length ≤ m + 1) {mid : List Token} {left : Expr}
    (hs : Derives .suffixes ts.tail mid) (hmid : opensSuffix (headKind mid) = false)
    (ho : Operations p mid rest) (hr : headKind rest ≠ .elseWord) :
    ∃ e ts', Reads n es (climb expr p l left) ts e ts' ∧ ts'.tail = rest := by
  induction l generalizing ts mid left with
  | zero =>
    obtain rfl := List.length_eq_zero_iff.1 (Nat.le_zero.1 hl)
    obtain rfl := List.suffix_nil.1 hs.suffix
    cases ho with
    | stop _ => exact ⟨left, [], reads_climb_zero.2 ⟨rfl, rfl⟩, rfl⟩
    | step hk _ _ _ => cases hk
  | succ l ih =>
    simp only [reads_climb_succ]
    have hle : ts.tail.tail.length ≤ m := by simp only [List.length_tail]; omega
    rcases derives_suffixes.1 hs with rfl | ⟨hk, mid', hes, hp, hs⟩ | ⟨hk, mid', he, hp, hs⟩
    · cases ho with
      | stop hstop =>
        -- no operation that binds tighter comes next, and no call or subscript either
        refine ⟨left, ts, ?_, rfl⟩
        rcases hk : Continuation.ofKind? (headKind ts.tail) with _ | (op | _ | _)
        · exact ⟨rfl, rfl⟩
        · exact .inr ⟨hstop op hk, rfl, rfl⟩
        · rw [ofKind?_eq_call.1 hk] at hmid; cases hmid
        · rw [ofKind?_eq_index.1 hk] at hmid; cases hmid
      | step hk hp hu ho =>
        -- the right operand takes the operations that bind tighter than this one
        obtain ⟨mid₂, ho₁, ho₂⟩ := ho.split (Nat.le_of_lt hp)
        have hch : Chain _ ts.tail.tail mid₂ := ⟨_, hu, ho₁⟩
        obtain ⟨r, ts₁, h₁, rfl⟩ := hc (Precedence.operator_le_unary _) hle hch (ho₂.headKind_ne_else hr)
        have hlt := h₁.suffix.length_le
        simp only [List.length_tail] at hlt
        obtain ⟨e, ts', h₂, ht⟩ := ih (by omega) (by omega) (derives_suffixes.2 (.inl rfl)) hch.opensSuffix ho₂
        simp only [hk]
        exact ⟨e, ts', .inl ⟨hp, _, ts₁, reads_continued_operator.2 ⟨r, rfl, h₁⟩, h₂⟩, ht⟩
    · obtain ⟨as, h₁⟩ := items_complete hc hp (by decide) (by decide) rfl hle hes
      have hlt := h₁.suffix.length_le
      rw [List.length_tail] at hlt
      obtain ⟨e, ts', h₂, ht⟩ := ih (by omega) (by omega) hs hmid ho
      simp only [ofKind?_eq_call.2 hk]
      exact ⟨e, ts', .inl ⟨Precedence.lt_call_of_le_unary hpu, _, mid',
        reads_continued_call.2 ⟨as, rfl, h₁⟩, h₂⟩, ht⟩
    · obtain ⟨i, ts₁, h₁, rfl⟩ := hc.expression hle he (by rw [hp]; decide)
      have hlt := h₁.suffix.length_le
      simp only [List.length_tail] at hlt
      obtain ⟨e, ts', h₂, ht⟩ := ih (by rw [List.length_tail]; omega) (by rw [List.length_tail]; omega)
        hs hmid ho
      simp only [ofKind?_eq_index.2 hk]
      exact ⟨e, ts', .inl ⟨Precedence.lt_index_of_le_unary hpu, _, _,
        reads_continued_index.2 ⟨i, ts₁, rfl, h₁, hp, rfl⟩, h₂⟩, ht⟩

theorem unary_complete (hc : Complete n es m expr) (hm : ts.length ≤ m + 1) {mid : List Token}
    (hk : headKind ts = .bang ∨ headKind ts = .minus) (h : Derives .unary ts.tail mid)
    (hr : headKind mid ≠ .elseWord) : ∃ e ts', Reads n es (operand expr) ts e ts' ∧ ts'.tail = mid := by
  have hle : ts.tail.length ≤ m := by rw [List.length_tail]; omega
  obtain ⟨e, ts', h₁, ht⟩ := hc (Nat.le_refl _) hle (chain_unary_iff.2 h) hr
  simp only [reads_operand]
  rcases hk with hk | hk
  · simp only [hk]; exact ⟨_, ts', reads_unary.2 ⟨e, rfl, h₁⟩, ht⟩
  · simp only [hk]; exact ⟨_, ts', reads_unary.2 ⟨e, rfl, h₁⟩, ht⟩

end Rules

/-- Whatever the grammar derives as an expression is read, if the bound covers the tokens. -/
theorem expr_complete (m : Nat) : Complete n es m (expr m) := by
  induction m with
  | zero =>
    intro p ts rest _ hm h _
    obtain rfl := List.length_eq_zero_iff.1 (Nat.le_zero.1 hm)
    obtain ⟨mid, hu, -⟩ := h
    exact absurd (startsOperand_of_derives_unary hu) (by decide)
  | succ m ih =>
    intro p ts rest hpu hm h hr
    obtain ⟨mid, hu, ho⟩ := h
    have hsuf := opensSuffix_of_derives_unary hu
    have helse := ho.headKind_ne_else hr
    simp only [reads_expr_succ]
    rcases derives_unary.1 hu with ⟨hk, hu⟩ | hx
    · obtain ⟨l, ts₁, h₁, rfl⟩ := unary_complete ih hm hk hu helse
      obtain ⟨e, ts', h₂, ht⟩ := climb_complete ih hpu (Nat.le_refl _)
        (Nat.le_trans h₁.suffix.length_le hm) (derives_suffixes.2 (.inl rfl)) hsuf ho hr
      exact ⟨e, ts', ⟨l, ts₁, h₁, h₂⟩, ht⟩
    · obtain ⟨⟨mid₁, hp, hs⟩, -⟩ := derives_suffixed.1 hx
      obtain ⟨l, ts₁, h₁, rfl⟩ := primary_complete ih hm hp (headKind_ne_else_of_suffixes hs helse)
      obtain ⟨e, ts', h₂, ht⟩ := climb_complete ih hpu (Nat.le_refl _)
        (Nat.le_trans h₁.suffix.length_le hm) hs hsuf ho hr
      exact ⟨e, ts', ⟨l, ts₁, h₁, h₂⟩, ht⟩

end Parser

end MonkeyLang
