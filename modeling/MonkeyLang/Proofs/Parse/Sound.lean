/-
What is read without an error is derivable: every rule, run cleanly, takes tokens that the grammar
derives. The rules are sound whenever the reader for the expressions inside them is (`Sound`), so
that the reader of expressions is sound by induction on its bound.
-/
import MonkeyLang.Proofs.Parse.Operations
import MonkeyLang.Proofs.Parse.Rules

namespace MonkeyLang.Parser

open Grammar

/-- None of the tokens is the one for the end. -/
def Proper (ts : List Token) : Prop := ∀ t ∈ ts, t.kind ≠ .endOfInput

theorem Proper.suffix {ts ts' : List Token} (h : Proper ts) (hs : ts' <:+ ts) : Proper ts' :=
  fun t ht => h t (hs.subset ht)

theorem Proper.tail {ts : List Token} (h : Proper ts) : Proper ts.tail := h.suffix (List.tail_suffix ts)

theorem Proper.eq_nil {ts : List Token} (h : Proper ts) (hk : headKind ts = .endOfInput) : ts = [] := by
  cases ts with
  | nil => rfl
  | cons t ts => exact absurd hk (h t (List.mem_cons_self ..))

/-- The reader of expressions takes chains only. -/
def Sound (n : Nat) (es : List ParseError) (expr : Precedence → Parser Expr) : Prop :=
  ∀ ⦃p ts e ts'⦄, p ≤ .unary → Proper ts → Reads n es (expr p) ts e ts' → Chain p ts ts'.tail

variable {n : Nat} {es : List ParseError} {ts ts' : List Token}

section Rules

variable {expr : Precedence → Parser Expr} [∀ p, Lawful (expr p)]

omit [∀ p, Lawful (expr p)] in
theorem Sound.expression (hs : Sound n es expr) {e : Expr} (hp : Proper ts)
    (h : Reads n es (expr .lowest) ts e ts') : Derives .expression ts ts'.tail :=
  chain_lowest_iff.1 (hs (Precedence.lowest_le _) hp h)

/-! ## Statements -/

theorem derives_terminator_pastSemicolon : Derives .terminator ts.tail (pastSemicolon ts).tail := by
  unfold pastSemicolon
  split
  · rename_i hk; exact derives_terminator.2 (.inr ⟨hk, rfl⟩)
  · exact derives_terminator.2 (.inl rfl)

theorem statement_sound (hs : Sound n es expr) {s : Stmt} (hp : Proper ts)
    (h : Reads n es (statement expr) ts s ts') : Derives .statement ts ts'.tail := by
  rw [reads_statement] at h
  rw [derives_statement]
  split at h
  · rename_i hk
    obtain ⟨hi, ha, e, ts₁, -, he, rfl⟩ := reads_bindStatement.1 h
    exact .inl ⟨hk, hi, ha, _, hs.expression hp.tail.tail.tail he, derives_terminator_pastSemicolon⟩
  · rename_i hk
    obtain ⟨e, ts₁, -, he, rfl⟩ := reads_returnStatement.1 h
    exact .inr (.inl ⟨hk, _, hs.expression hp.tail he, derives_terminator_pastSemicolon⟩)
  · obtain ⟨e, ts₁, -, he, rfl⟩ := reads_expressionStatement.1 h
    exact .inr (.inr ⟨_, hs.expression hp he, derives_terminator_pastSemicolon⟩)

/-- Statements are read up to a token that ends them; the bound does not cut them off. -/
theorem statements_sound (hs : Sound n es expr) {stops : Token.Kind → Bool}
    (hstop : stops .endOfInput = true) {m : Nat} {ss : List Stmt} (hp : Proper ts) (hm : ts.length ≤ m)
    (h : Reads n es (statements expr stops m) ts ss ts') :
    Derives .statements ts ts' ∧ stops (headKind ts') = true := by
  induction m generalizing ts ss with
  | zero =>
    obtain ⟨-, rfl⟩ := reads_statements_zero.1 h
    obtain rfl := List.length_eq_zero_iff.1 (Nat.le_zero.1 hm)
    exact ⟨derives_statements.2 (.inl rfl), hstop⟩
  | succ m ih =>
    rcases reads_statements_succ.1 h with ⟨hk, -, rfl⟩ | ⟨hk, s, ss', ts₁, -, h₁, h₂⟩
    · exact ⟨derives_statements.2 (.inl rfl), hk⟩
    · have hle : ts₁.tail.length ≤ m := by
        have := h₁.suffix.length_le
        rw [List.length_tail]; omega
      obtain ⟨hd, hk'⟩ := ih (hp.suffix h₁.suffix).tail hle h₂
      exact ⟨derives_statements.2 (.inr ⟨_, statement_sound hs hp h₁, hd⟩), hk'⟩

theorem block_sound (hs : Sound n es expr) {ss : List Stmt} (hp : Proper ts)
    (hb : headKind ts = .leftBrace) (h : Reads n es (block expr) ts ss ts') :
    Derives .block ts ts'.tail := by
  have hsuf := h.suffix
  rw [reads_block] at h
  obtain ⟨hd, hk⟩ := statements_sound hs rfl hp.tail (Nat.le_refl _) h
  refine derives_block.2 ⟨hb, ts', hd, ?_⟩
  simp only [endsBlock, Bool.or_eq_true, beq_iff_eq] at hk
  rcases hk with hk | hk
  · exact .inl ⟨hk, rfl⟩
  · obtain rfl := (hp.suffix hsuf).eq_nil hk
    exact .inr ⟨rfl, rfl⟩

/-! ## Lists -/

theorem moreItems_sound (hs : Sound n es expr) {m : Nat} {as : List Expr} (hp : Proper ts)
    (h : Reads n es (moreItems (nextExpr expr) m) ts as ts') :
    Derives .moreExpressions ts.tail ts'.tail := by
  induction m generalizing ts as with
  | zero =>
    obtain ⟨-, rfl⟩ := reads_moreItems_zero.1 h
    exact derives_moreExpressions.2 (.inl rfl)
  | succ m ih =>
    rcases reads_moreItems_succ.1 h with ⟨hk, a, as', ts₁, -, ha, has⟩ | ⟨-, -, rfl⟩
    · have hp₁ : Proper ts₁ := hp.tail.suffix ha.suffix
      exact derives_moreExpressions.2
        (.inr ⟨hk, _, hs.expression hp.tail.tail (reads_nextExpr.1 ha), ih hp₁ has⟩)
    · exact derives_moreExpressions.2 (.inl rfl)

theorem items_sound (hs : Sound n es expr) {close : Token.Kind} {as : List Expr} (hp : Proper ts)
    (h : Reads n es (items (nextExpr expr) close) ts as ts') :
    Derives .expressions ts.tail ts' ∧ headKind ts' = close := by
  rcases reads_items.1 h with ⟨hk, -, rfl⟩ | ⟨-, a, as', ts₁, ts₂, -, ha, has, hk, rfl⟩
  · exact ⟨derives_expressions.2 (.inl rfl), hk⟩
  · have hp₁ : Proper ts₁ := hp.suffix ha.suffix
    exact ⟨derives_expressions.2
      (.inr ⟨_, hs.expression hp.tail (reads_nextExpr.1 ha), moreItems_sound hs hp₁ has⟩), hk⟩

theorem moreParams_sound {m : Nat} {names : List String}
    (h : Reads n es (moreItems param m) ts names ts') : Derives .moreParams ts.tail ts'.tail := by
  induction m generalizing ts names with
  | zero =>
    obtain ⟨-, rfl⟩ := reads_moreItems_zero.1 h
    exact derives_moreParams.2 (.inl rfl)
  | succ m ih =>
    rcases reads_moreItems_succ.1 h with ⟨hk, a, as', ts₁, -, ha, has⟩ | ⟨-, -, rfl⟩
    · obtain ⟨hi, -, rfl⟩ := reads_param.1 ha
      exact derives_moreParams.2 (.inr ⟨hk, hi, ih has⟩)
    · exact derives_moreParams.2 (.inl rfl)

theorem params_sound {close : Token.Kind} {names : List String}
    (h : Reads n es (items param close) ts names ts') :
    Derives .params ts.tail ts' ∧ headKind ts' = close := by
  rcases reads_items.1 h with ⟨hk, -, rfl⟩ | ⟨-, a, as', ts₁, ts₂, -, ha, has, hk, rfl⟩
  · exact ⟨derives_params.2 (.inl rfl), hk⟩
  · obtain ⟨hi, -, rfl⟩ := reads_param.1 ha
    exact ⟨derives_params.2 (.inr ⟨hi, moreParams_sound has⟩), hk⟩

theorem pair_sound (hs : Sound n es expr) {q : Expr × Expr} (hp : Proper ts)
    (h : Reads n es (pair expr) ts q ts') : Derives .pair ts.tail ts'.tail := by
  obtain ⟨ts₁, hk, hc, hv⟩ := reads_pair.1 h
  have hp₁ : Proper ts₁ := hp.tail.suffix hk.suffix
  exact derives_pair.2 ⟨_, hs.expression hp.tail hk, hc, hs.expression hp₁.tail.tail hv⟩

/-- At the closing brace there are no further pairs. -/
theorem eq_of_reads_pairs {m : Nat} {qs : List (Expr × Expr)} (hk : headKind ts.tail = .rightBrace)
    (h : Reads n es (pairs expr m) ts qs ts') : ts = ts' := by
  cases m with
  | zero => exact absurd h not_reads_pairs_zero
  | succ m =>
    rcases reads_pairs_succ.1 h with ⟨-, -, rfl⟩ | ⟨hk', -⟩
    · rfl
    · exact absurd hk hk'

/-- Pairs, one at least: the reader looks for a comma after each of them, the grammar before each
further one. -/
theorem somePairs_sound (hs : Sound n es expr) {m : Nat} {qs : List (Expr × Expr)} (hp : Proper ts)
    (hk : headKind ts.tail ≠ .rightBrace) (h : Reads n es (pairs expr m) ts qs ts') :
    ∃ mid, Derives .pair ts.tail mid ∧ ∃ mid', Derives .morePairs mid mid' ∧
      Derives .trailingComma mid' ts'.tail := by
  induction m generalizing ts qs with
  | zero => exact absurd h not_reads_pairs_zero
  | succ m ih =>
    rcases reads_pairs_succ.1 h with ⟨hk', -, -⟩ | ⟨-, q, qs', ts₁, -, hq, hc, hqs⟩
    · exact absurd hk' hk
    · refine ⟨_, pair_sound hs hp hq, ?_⟩
      have hp₁ : Proper ts₁ := hp.suffix hq.suffix
      by_cases hb : headKind ts₁.tail = .rightBrace
      · rw [pastComma, if_pos hb] at hqs
        obtain rfl := eq_of_reads_pairs hb hqs
        exact ⟨_, derives_morePairs.2 (.inl rfl), derives_trailingComma.2 (.inl rfl)⟩
      · have hc := hc.resolve_left hb
        rw [pastComma, if_neg hb] at hqs
        by_cases hb' : headKind ts₁.tail.tail = .rightBrace
        · -- the comma was the last one
          obtain rfl := eq_of_reads_pairs hb' hqs
          exact ⟨_, derives_morePairs.2 (.inl rfl), derives_trailingComma.2 (.inr ⟨hc, rfl⟩)⟩
        · obtain ⟨mid, hq', mid', hm, ht⟩ := ih hp₁.tail hb' hqs
          exact ⟨mid', derives_morePairs.2 (.inr ⟨hc, mid, hq', hm⟩), ht⟩

theorem pairs_sound (hs : Sound n es expr) {m : Nat} {qs : List (Expr × Expr)} (hp : Proper ts)
    (h : Reads n es (pairs expr m) ts qs ts') : Derives .pairs ts.tail ts'.tail := by
  by_cases hk : headKind ts.tail = .rightBrace
  · obtain rfl := eq_of_reads_pairs hk h
    exact derives_pairs.2 (.inl rfl)
  · exact derives_pairs.2 (.inr (somePairs_sound hs hp hk h))

/-! ## Operands -/

theorem alternative_sound (hs : Sound n es expr) {a : Option (List Stmt)} (hp : Proper ts)
    (h : ReadsAlternative n es expr ts a ts') : Derives .alternative ts.tail ts'.tail := by
  cases h with
  | none _ => exact derives_alternative.2 (.inl rfl)
  | some hk hb h => exact derives_alternative.2 (.inr ⟨hk, block_sound hs hp.tail.tail hb h⟩)

theorem operand_sound (hs : Sound n es expr) {e : Expr} (hp : Proper ts)
    (h : Reads n es (operand expr) ts e ts') :
    Derives .primary ts ts'.tail ∨ Derives .unary ts ts'.tail := by
  rw [reads_operand] at h
  rw [derives_primary]
  split at h
  · rename_i hk; obtain ⟨-, rfl⟩ := h
    exact .inl (.inl ⟨.inl hk, rfl⟩)
  · -- an integer, within its limit
    rename_i hk
    obtain ⟨hn, -, rfl⟩ := reads_integer.1 h
    rw [Text.integerLimit] at hn
    exact .inl (.inr (.inl ⟨hk, by omega, rfl⟩))
  · rename_i hk; obtain ⟨-, rfl⟩ := h
    exact .inl (.inl ⟨.inr (.inl hk), rfl⟩)
  · rename_i hk; obtain ⟨-, rfl⟩ := h
    exact .inl (.inl ⟨.inr (.inr (.inl hk)), rfl⟩)
  · rename_i hk; obtain ⟨-, rfl⟩ := h
    exact .inl (.inl ⟨.inr (.inr (.inr hk)), rfl⟩)
  · rename_i hk
    obtain ⟨e', -, he⟩ := reads_unary.1 h
    exact .inr (derives_unary.2 (.inl ⟨.inl hk, chain_unary_iff.1 (hs (Nat.le_refl _) hp.tail he)⟩))
  · rename_i hk
    obtain ⟨e', -, he⟩ := reads_unary.1 h
    exact .inr (derives_unary.2 (.inl ⟨.inr hk, chain_unary_iff.1 (hs (Nat.le_refl _) hp.tail he)⟩))
  · rename_i hk
    obtain ⟨ts₁, he, hr, rfl⟩ := reads_grouped.1 h
    exact .inl (.inr (.inr (.inl ⟨hk, _, hs.expression hp.tail he, hr, rfl⟩)))
  · -- a conditional: the condition, a block, perhaps another block
    rename_i hk
    obtain ⟨c, t, a, ts₁, ts₂, -, hl, hc, hr, hb, ht, ha⟩ := reads_conditional.1 h
    have hp₁ : Proper ts₁ := hp.tail.tail.suffix hc.suffix
    have hp₂ : Proper ts₂ := hp₁.tail.tail.suffix ht.suffix
    exact .inl (.inr (.inr (.inr (.inl ⟨hk, hl, _, hs.expression hp.tail.tail hc, hr, _,
      block_sound hs hp₁.tail.tail hb ht, alternative_sound hs hp₂ ha⟩))))
  · rename_i hk
    obtain ⟨ps, b, ts₁, -, hl, hps, hb, h⟩ := reads_function.1 h
    have hp₁ : Proper ts₁ := hp.tail.suffix hps.suffix
    obtain ⟨hd, hr⟩ := params_sound hps
    exact .inl (.inr (.inr (.inr (.inr (.inl ⟨hk, hl, _, hd, hr, block_sound hs hp₁.tail hb h⟩)))))
  · rename_i hk
    obtain ⟨as, -, has⟩ := reads_array.1 h
    obtain ⟨hd, hr⟩ := items_sound hs hp has
    exact .inl (.inr (.inr (.inr (.inr (.inr (.inl ⟨hk, _, hd, hr, rfl⟩))))))
  · rename_i hk
    obtain ⟨qs, ts₁, -, hqs, hr, rfl⟩ := reads_hash.1 h
    exact .inl (.inr (.inr (.inr (.inr (.inr (.inr ⟨hk, _, pairs_sound hs hp hqs, hr, rfl⟩))))))
  · exact h.elim

/-! ## Continuations -/

theorem eq_of_derives_suffixes (h : Derives .suffixes ts ts') (hk : opensSuffix (headKind ts) = false) :
    ts = ts' := by
  rcases derives_suffixes.1 h with rfl | ⟨hk', -⟩ | ⟨hk', -⟩
  · rfl
  · rw [hk'] at hk; cases hk
  · rw [hk'] at hk; cases hk

/-- The loop first takes the calls and subscripts of the operand, then the operations. -/
theorem climb_sound (hs : Sound n es expr) {p : Precedence} (hpu : p ≤ .unary) {m : Nat} {left e : Expr}
    (hp : Proper ts) (hm : ts.length ≤ m) (h : Reads n es (climb expr p m left) ts e ts') :
    ∃ mid, Derives .suffixes ts.tail mid ∧ opensSuffix (headKind mid) = false ∧
      Operations p mid ts'.tail := by
  induction m generalizing ts left with
  | zero =>
    obtain ⟨-, rfl⟩ := reads_climb_zero.1 h
    obtain rfl := List.length_eq_zero_iff.1 (Nat.le_zero.1 hm)
    exact ⟨_, derives_suffixes.2 (.inl rfl), rfl, .stop fun op hk => by cases hk⟩
  | succ m ih =>
    rw [reads_climb_succ] at h
    split at h
    · rename_i hk
      obtain ⟨-, rfl⟩ := h
      exact ⟨_, derives_suffixes.2 (.inl rfl), opensSuffix_eq_false (by simp [hk]) (by simp [hk]),
        .stop fun op hk' => by rw [hk] at hk'; cases hk'⟩
    · rename_i k hk
      rcases h with ⟨hlt, l, ts₁, hl, h⟩ | ⟨hlt, -, rfl⟩
      · have hp₁ : Proper ts₁ := hp.tail.suffix hl.suffix
        have hle : ts₁.length ≤ m := by
          have := hl.suffix.length_le
          rw [List.length_tail] at this; omega
        obtain ⟨mid, hd, hmid, ho⟩ := ih hp₁ hle h
        cases k with
        | operator op =>
          -- the right operand has taken all its calls, so that none is left for the loop
          obtain ⟨r, -, hr⟩ := reads_continued_operator.1 hl
          obtain ⟨mid', hu, ho'⟩ := hs (Precedence.operator_le_unary op) hp.tail.tail hr
          have hsuf := (show Chain _ _ _ from ⟨mid', hu, ho'⟩).opensSuffix
          obtain rfl := eq_of_derives_suffixes hd hsuf
          exact ⟨_, derives_suffixes.2 (.inl rfl), opensSuffix_eq_false (by simp [hk]) (by simp [hk]),
            .step hk hlt hu (ho'.trans (Nat.le_of_lt hlt) ho)⟩
        | call =>
          obtain ⟨as, -, has⟩ := reads_continued_call.1 hl
          obtain ⟨hd', hr⟩ := items_sound hs hp.tail has
          exact ⟨mid, derives_suffixes.2 (.inr (.inl ⟨ofKind?_eq_call.1 hk, _, hd', hr, hd⟩)), hmid, ho⟩
        | index =>
          obtain ⟨i, ts₂, -, hi, hr, rfl⟩ := reads_continued_index.1 hl
          exact ⟨mid, derives_suffixes.2 (.inr (.inr ⟨ofKind?_eq_index.1 hk, _,
            hs.expression hp.tail.tail hi, hr, hd⟩)), hmid, ho⟩
      · -- the loop stops at an operator: calls and subscripts bind tighter than any bound in use
        refine ⟨_, derives_suffixes.2 (.inl rfl), opensSuffix_eq_false ?_ ?_, .stop fun op hk' => ?_⟩
        · intro hk'; rw [hk] at hk'; cases hk'
          exact hlt (Precedence.lt_call_of_le_unary hpu)
        · intro hk'; rw [hk] at hk'; cases hk'
          exact hlt (Precedence.lt_index_of_le_unary hpu)
        · rw [hk] at hk'; cases hk'; exact hlt

end Rules

/-- Expressions are read as the grammar derives them, at every bound. -/
theorem expr_sound (m : Nat) : Sound n es (expr m) := by
  induction m with
  | zero => intro p ts e ts' _ _ h; exact absurd h not_reads_expr_zero
  | succ m ih =>
    intro p ts e ts' hpu hp h
    obtain ⟨l, ts₁, hl, he⟩ := reads_expr_succ.1 h
    obtain ⟨mid, hd, hmid, ho⟩ := climb_sound ih hpu (hp.suffix hl.suffix) (Nat.le_refl _) he
    refine ⟨mid, derives_unary.2 ?_, ho⟩
    rcases operand_sound ih hp hl with h | h
    · exact .inr (derives_suffixed.2 ⟨⟨_, h, hd⟩, hmid⟩)
    · obtain rfl := eq_of_derives_suffixes hd (opensSuffix_of_derives_unary h)
      exact derives_unary.1 h

end MonkeyLang.Parser
