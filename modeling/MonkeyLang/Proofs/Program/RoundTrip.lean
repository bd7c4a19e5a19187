/-
The canonical text of a plain program is a source for it. The reader of expressions does not know
where an expression ends: behind the tokens of `f` it goes on with the arguments of a call. So reading
back is stated for what comes after (`ReadsOn`): whatever reads on from `e` at its last token reads on
from its first one.
-/
import MonkeyLang.Proofs.Parse.Acceptance
import MonkeyLang.Proofs.Program.Words

namespace MonkeyLang

open Token (Word)
open MonkeyLang.Parser Grammar

/-! ## First words -/

theorem plainCases_firstWord : PlainCases
    (fun e => ∃ w ws, e.words = w :: ws ∧ startsOperand w.kind = true ∧
      (Continuation.ofKind? w.kind = none ∨ opensBracket e.text = true))
    (fun s => ∃ w ws, s.words = w :: ws ∧ startsStatement w.kind = true ∧
      (Continuation.ofKind? w.kind = none ∨ opensBracket s.text = true)) where
  ident name h := ⟨_, _, words_ident h, rfl, .inl rfl⟩
  int n h := ⟨_, _, words_int h, rfl, .inl rfl⟩
  bool b := by cases b <;> exact ⟨_, _, words_bool _, rfl, .inl rfl⟩
  array es h := ⟨_, _, words_array fun e he => (h e he).1, rfl, .inr (by simp [opensBracket, Expr.text])⟩
  hash ps h := ⟨_, _, words_hash fun q hq => ⟨(h q hq).1.1, (h q hq).2.1⟩, rfl, .inl rfl⟩
  function params body hp hb _ := ⟨_, _, words_function hp fun s hs => (hb s hs).1, rfl, .inl rfl⟩
  unary op e h _ := ⟨_, _, words_unary h, rfl, .inr (by simp [opensBracket, Expr.text])⟩
  binary op l r hl _ hr _ := ⟨_, _, words_binary hl hr, rfl, .inr (by simp [opensBracket, Expr.text])⟩
  call f args hf h ha := by
    obtain ⟨w, ws, hw, hs, hk⟩ := h
    refine ⟨w, _, by rw [words_call hf fun e he => (ha e he).1, hw]; rfl, hs, hk.imp_right fun ho => ?_⟩
    obtain ⟨c, cs, hc, -⟩ := plainCases_first.of_expr f hf
    simpa [opensBracket, Expr.text, hc] using ho
  index e i he _ hi _ := ⟨_, _, words_index he hi, rfl, .inr (by simp [opensBracket, Expr.text])⟩
  bind name e hn he _ := ⟨_, _, words_bind hn he, rfl, .inl rfl⟩
  ret e he _ := ⟨_, _, words_ret he, rfl, .inl rfl⟩
  expr e _ h := by
    obtain ⟨w, ws, hw, hs, hk⟩ := h
    exact ⟨w, ws, hw, by simp [startsStatement, hs], hk⟩

/-! ## Tokens for words -/

/-- The tokens `ts` begin with tokens for the words `ws`, and `rest` comes after them. -/
def Spells (ws : List Word) (ts rest : List Token) : Prop := ∃ us, us.map Token.word = ws ∧ ts = us ++ rest

variable {ts rest : List Token}

theorem spells_nil : Spells [] ts rest ↔ ts = rest := by
  simp [Spells]

theorem spells_cons {w : Word} {ws : List Word} : Spells (w :: ws) ts rest ↔
    ∃ t us, t.kind = w.kind ∧ t.literal = w.literal ∧ ts = t :: us ∧ Spells ws us rest := by
  constructor
  · rintro ⟨us, hw, rfl⟩
    cases us with
    | nil => cases hw
    | cons t us =>
      rw [List.map_cons, List.cons.injEq] at hw
      exact ⟨t, us ++ rest, by rw [← hw.1]; rfl, by rw [← hw.1]; rfl, rfl, us, hw.2, rfl⟩
  · rintro ⟨t, _, hk, hl, rfl, us, rfl, rfl⟩
    refine ⟨t :: us, ?_, rfl⟩
    rw [List.map_cons, Token.word, hk, hl]

theorem spells_append {ws ws' : List Word} :
    Spells (ws ++ ws') ts rest ↔ ∃ mid, Spells ws ts mid ∧ Spells ws' mid rest := by
  constructor
  · rintro ⟨us, hw, rfl⟩
    obtain ⟨us₁, us₂, rfl, h₁, h₂⟩ := List.map_eq_append_iff.1 hw
    exact ⟨us₂ ++ rest, ⟨us₁, h₁, List.append_assoc ..⟩, us₂, h₂, rfl⟩
  · rintro ⟨_, ⟨us₁, rfl, rfl⟩, us₂, rfl, rfl⟩
    exact ⟨us₁ ++ us₂, List.map_append, (List.append_assoc ..).symm⟩

/-- Words with one word between them. -/
theorem Spells.between {w : Word} {ws ws' : List Word} (h : Spells (ws ++ w :: ws') ts rest) :
    ∃ t us, t.kind = w.kind ∧ Spells ws ts (t :: us) ∧ Spells ws' us rest := by
  obtain ⟨mid, h₁, h₂⟩ := spells_append.1 h
  obtain ⟨t, us, hk, -, rfl, h₃⟩ := spells_cons.1 h₂
  exact ⟨t, us, hk, h₁, h₃⟩

theorem Spells.before {w : Word} {ws : List Word} (h : Spells (ws ++ [w]) ts rest) :
    ∃ t, t.kind = w.kind ∧ Spells ws ts (t :: rest) := by
  obtain ⟨t, us, hk, h₁, h₂⟩ := h.between
  obtain rfl := spells_nil.1 h₂
  exact ⟨t, hk, h₁⟩

theorem Spells.length_le {ws : List Word} (h : Spells ws ts rest) : rest.length ≤ ts.length := by
  obtain ⟨us, -, rfl⟩ := h
  simp

theorem Spells.headKind_first {w : Word} {ws : List Word} (h : Spells (w :: ws) ts rest) :
    headKind ts = w.kind ∧ rest.length < ts.length := by
  obtain ⟨t, us, hk, -, rfl, hs⟩ := spells_cons.1 h
  exact ⟨hk, Nat.lt_succ_of_le hs.length_le⟩

theorem Spells.startsOperand {e : Expr} (he : e.plain = true) (h : Spells e.words ts rest) :
    startsOperand (headKind ts) = true ∧ rest.length < ts.length := by
  obtain ⟨w, ws, hw, hs, -⟩ := plainCases_firstWord.of_expr e he
  rw [hw] at h
  exact ⟨by rw [h.headKind_first.1, hs], h.headKind_first.2⟩

/-! ## Reading on -/

variable {n : Nat} {es : List ParseError}

/-- Whatever reads on from `e` at the last of its tokens, before `rest`, reads on from the first. -/
def ReadsOn (n : Nat) (es : List ParseError) (e : Expr) (ts rest : List Token) : Prop :=
  ∃ t, ∀ m p a ts', p ≤ .unary → ts.length ≤ m + 1 →
    (∀ k, rest.length < k → Reads n es (climb (expr m) p k e) (t :: rest) a ts') →
    Reads n es (expr (m + 1) p) ts a ts'

/-- The expression is read back from its own tokens. -/
def Expr.ReadsBack (n : Nat) (es : List ParseError) (e : Expr) : Prop :=
  ∀ ⦃ts rest⦄, Spells e.words ts rest → ReadsOn n es e ts rest

theorem ReadsOn.of_operand {e : Expr} {t : Token}
    (h : ∀ m, ts.length ≤ m + 1 → Reads n es (operand (expr m)) ts e (t :: rest)) :
    ReadsOn n es e ts rest :=
  ⟨t, fun m _ _ _ _ hm hc => reads_expr_succ.2 ⟨e, t :: rest, h m hm, hc _ (Nat.lt_succ_self _)⟩⟩

theorem reads_climb_stop {f : Precedence → Parser Expr} [∀ p, Lawful (f p)] {p : Precedence} {k : Nat}
    {e : Expr} {t : Token} (h : Continuation.ofKind? (headKind rest) = none) :
    Reads n es (climb f p k e) (t :: rest) e (t :: rest) := by
  cases k with
  | zero => exact reads_climb_zero.2 ⟨rfl, rfl⟩
  | succ k => rw [reads_climb_succ, List.tail_cons, h]; exact ⟨rfl, rfl⟩

theorem Expr.ReadsBack.whole {e : Expr} (h : e.ReadsBack n es) (he : e.plain = true)
    (hs : Spells e.words ts rest) {m : Nat} (hm : ts.length ≤ m) {p : Precedence} (hp : p ≤ .unary)
    (hr : Continuation.ofKind? (headKind rest) = none) : ∃ t, Reads n es (expr m p) ts e (t :: rest) := by
  obtain ⟨t, ht⟩ := h hs
  have hpos := (hs.startsOperand he).2
  obtain ⟨m, rfl⟩ : ∃ k, m = k + 1 := ⟨m - 1, by omega⟩
  exact ⟨t, ht m p e _ hp hm fun k _ => reads_climb_stop hr⟩

/-- The words are read as the whole of `e` wherever nothing goes on with it. -/
structure ReadsWhole (n : Nat) (es : List ParseError) (ws : List Word) (e : Expr) : Prop where
  starts : ∀ ⦃ts rest⦄, Spells ws ts rest → startsOperand (headKind ts) = true ∧ rest.length < ts.length
  reads : ∀ ⦃ts rest⦄, Spells ws ts rest → ∀ m, ts.length ≤ m → ∀ p, p ≤ .unary →
    Continuation.ofKind? (headKind rest) = none → ∃ t, Reads n es (expr m p) ts e (t :: rest)

theorem Expr.ReadsBack.readsWhole {e : Expr} (h : e.ReadsBack n es) (he : e.plain = true) :
    ReadsWhole n es e.words e :=
  ⟨fun _ _ hs => hs.startsOperand he, fun _ _ hs _ hm _ hp hr => h.whole he hs hm hp hr⟩

/-- Parentheses around what is read as a whole. -/
theorem ReadsOn.group {e : Expr} {t u : Token} (ht : t.kind = .leftParen) (hu : u.kind = .rightParen)
    (h : ∀ m, ts.length ≤ m + 1 → ∃ v, Reads n es (expr (m + 1) .lowest) ts e (v :: u :: rest))
    (hne : 0 < ts.length) : ReadsOn n es e (t :: ts) rest := by
  refine .of_operand (t := u) fun m hm => ?_
  rw [reads_operand, headKind_cons, ht]
  obtain ⟨m, rfl⟩ : ∃ k, m = k + 1 := ⟨m - 1, by simp only [List.length_cons] at hm; omega⟩
  obtain ⟨v, hv⟩ := h m (Nat.le_of_succ_le_succ hm)
  exact reads_grouped.2 ⟨_, hv, hu, rfl⟩

/-- A continuation that is read on from `l` makes `e` out of it. -/
theorem ReadsOn.continue {l e : Expr} {o u : Token} {k : Continuation} (ho : Continuation.ofKind? o.kind = some k)
    (h : ReadsOn n es l ts (o :: rest)) {m : Nat} (hm : ts.length ≤ m + 1) {p : Precedence}
    (hp : p ≤ .unary) (hk : p < k.precedence) {rest' : List Token}
    (hc : Reads n es (continued (expr m) l k) (o :: rest) e (u :: rest')) {a : Expr} {ts' : List Token}
    (ha : ∀ j, rest.length < j → Reads n es (climb (expr m) p j e) (u :: rest') a ts') :
    Reads n es (expr (m + 1) p) ts a ts' := by
  obtain ⟨t, ht⟩ := h
  refine ht m p a ts' hp hm fun j hj => ?_
  obtain ⟨j, rfl⟩ : ∃ i, j = i + 1 := ⟨j - 1, by simp only [List.length_cons] at hj; omega⟩
  rw [reads_climb_succ, List.tail_cons, headKind_cons, ho]
  exact .inl ⟨hk, e, _, hc, ha j (Nat.lt_of_succ_lt_succ hj)⟩

/-! ## Lists -/

/-- A reader takes the words of `a`, which come after the current token, as far as `a` goes. -/
def ReadsItem {α : Type} (n : Nat) (es : List ParseError) (item : Parser α) (close : Token.Kind) (m : Nat)
    (words : α → List Word) (a : α) : Prop :=
  ∀ ⦃x ts rest⦄, Spells (words a) ts rest → ts.length ≤ m →
    headKind rest = .comma ∨ headKind rest = close →
    headKind ts ≠ close ∧ ∃ t, Reads n es item (x :: ts) a (t :: rest)

theorem headKind_of_spells_more {ws : List (List Word)} {u : Token} {close : Token.Kind}
    (h : Spells (ws.flatMap (.sign ',' :: ·)) ts (u :: rest)) (hu : u.kind = close) :
    headKind ts = .comma ∨ headKind ts = close := by
  cases ws with
  | nil => rw [spells_nil.1 h]; exact .inr hu
  | cons w ws =>
    rw [List.flatMap_cons, List.cons_append] at h
    exact .inl h.headKind_first.1

section Items

variable {α : Type} {item : Parser α} [Lawful item] {close : Token.Kind} {m : Nat} {words : α → List Word}
  {as : List α} {u : Token}

theorem reads_moreItems_of_spells (h : ∀ a ∈ as, ReadsItem n es item close m words a) (hu : u.kind = close)
    (hc : close ≠ .comma) (hs : Spells ((as.map words).flatMap (.sign ',' :: ·)) ts (u :: rest))
    (hm : ts.length ≤ m) {l : Nat} (hl : ts.length ≤ l) (x : Token) :
    ∃ t, Reads n es (moreItems item l) (x :: ts) as (t :: u :: rest) := by
  induction as generalizing ts l x with
  | nil =>
    obtain rfl := spells_nil.1 hs
    obtain ⟨l, rfl⟩ : ∃ k, l = k + 1 := ⟨l - 1, by simp only [List.length_cons] at hl; omega⟩
    exact ⟨x, reads_moreItems_succ.2 (.inr ⟨by simpa [hu] using hc, rfl, rfl⟩)⟩
  | cons a as ih =>
    rw [List.map_cons, List.flatMap_cons, List.cons_append] at hs
    obtain ⟨c, ts₁, hk, -, rfl, hs'⟩ := spells_cons.1 hs
    obtain ⟨mid, ha, has⟩ := spells_append.1 hs'
    simp only [List.length_cons] at hm hl
    obtain ⟨l, rfl⟩ : ∃ k, l = k + 1 := ⟨l - 1, by omega⟩
    obtain ⟨-, t, ht⟩ := h a (by simp) (x := c) ha (by omega) (headKind_of_spells_more has hu)
    have hle := ha.length_le
    obtain ⟨t', ht'⟩ := ih (fun b hb => h b (List.mem_cons_of_mem a hb)) has (by omega) (l := l) (by omega) t
    exact ⟨t', reads_moreItems_succ.2 (.inl ⟨hk, a, as, _, rfl, ht, ht'⟩)⟩

theorem reads_items_of_spells (h : ∀ a ∈ as, ReadsItem n es item close m words a) (hu : u.kind = close)
    (hc : close ≠ .comma) (hs : Spells (listed (as.map words)) ts (u :: rest)) (hm : ts.length ≤ m)
    (x : Token) : Reads n es (items item close) (x :: ts) as (u :: rest) := by
  cases as with
  | nil =>
    obtain rfl := spells_nil.1 hs
    exact reads_items.2 (.inl ⟨hu, rfl, rfl⟩)
  | cons a as =>
    obtain ⟨mid, ha, has⟩ := spells_append.1 hs
    obtain ⟨hne, t, ht⟩ := h a (by simp) (x := x) ha hm (headKind_of_spells_more has hu)
    have hle := ha.length_le
    obtain ⟨t', ht'⟩ := reads_moreItems_of_spells (fun b hb => h b (List.mem_cons_of_mem a hb)) hu hc has
      (by omega) (Nat.le_succ _) t
    exact reads_items.2 (.inr ⟨hne, a, as, _, _, rfl, ht, ht', hu, rfl⟩)

end Items

theorem ReadsWhole.item {words : Expr → List Word} {e : Expr} (h : ReadsWhole n es (words e) e)
    {close : Token.Kind} (hc : startsOperand close = false) (hk : Continuation.ofKind? close = none) (m : Nat) :
    ReadsItem n es (nextExpr (expr m)) close m words e := by
  intro x ts rest hs hm hr
  refine ⟨headKind_ne_of_startsOperand (h.starts hs).1 hc, ?_⟩
  have hstop : Continuation.ofKind? (headKind rest) = none := by
    rcases hr with hr | hr <;> rw [hr]
    · rfl
    · exact hk
  obtain ⟨t, ht⟩ := h.reads hs m hm .lowest (Precedence.lowest_le _) hstop
  exact ⟨t, reads_nextExpr.2 ht⟩

theorem readsItem_param (name : String) (m : Nat) :
    ReadsItem n es param .rightParen m (fun x => [⟨.ident, x⟩]) name := by
  intro x ts rest hs _ _
  obtain ⟨t, us, hk, hl, rfl, hs'⟩ := spells_cons.1 hs
  obtain rfl := spells_nil.1 hs'
  exact ⟨by simp [hk], t, reads_param.2 ⟨hk, hl.symm, rfl⟩⟩

section Pairs

variable {words : Expr → List Word}

theorem reads_pair_of_spells {q : Expr × Expr} (hk : ReadsWhole n es (words q.1) q.1)
    (hv : ReadsWhole n es (words q.2) q.2) (hs : Spells (words q.1 ++ .sign ':' :: words q.2) ts rest)
    {m : Nat} (hm : ts.length ≤ m) (hr : Continuation.ofKind? (headKind rest) = none) (x : Token) :
    ∃ t, Reads n es (pair (expr m)) (x :: ts) q (t :: rest) := by
  obtain ⟨c, us, hc, h₁, h₂⟩ := hs.between
  have hle := h₁.length_le
  simp only [List.length_cons] at hle
  obtain ⟨t, ht⟩ := hk.reads h₁ m hm .lowest (Precedence.lowest_le _) (by rw [headKind_cons, hc]; rfl)
  obtain ⟨t', ht'⟩ := hv.reads h₂ m (by omega) .lowest (Precedence.lowest_le _) hr
  exact ⟨t', reads_pair.2 ⟨_, ht, hc, ht'⟩⟩

theorem reads_pairs_of_spells {ps : List (Expr × Expr)} {m : Nat} {u : Token} (hu : u.kind = .rightBrace)
    (h : ∀ q ∈ ps, ReadsWhole n es (words q.1) q.1 ∧ ReadsWhole n es (words q.2) q.2)
    (hs : Spells (listed (ps.map fun q => words q.1 ++ .sign ':' :: words q.2)) ts (u :: rest))
    (hm : ts.length ≤ m) {l : Nat} (hl : ts.length < l) (x : Token) :
    ∃ t, Reads n es (pairs (expr m) l) (x :: ts) ps (t :: u :: rest) := by
  induction ps generalizing ts l x with
  | nil =>
    obtain rfl := spells_nil.1 hs
    exact ⟨x, reads_pairs_done hl hu⟩
  | cons q ps ih =>
    obtain ⟨l, rfl⟩ : ∃ k, l = k + 1 := ⟨l - 1, by omega⟩
    obtain ⟨hk, hv⟩ := h q (by simp)
    obtain ⟨mid, hq, hps⟩ := spells_append.1 hs
    have hmid := headKind_of_spells_more hps hu
    have hstop : Continuation.ofKind? (headKind mid) = none := by rcases hmid with h | h <;> rw [h] <;> rfl
    obtain ⟨mid', hq₁, hq₂⟩ := spells_append.1 hq
    have hne := headKind_ne_of_startsOperand (k := .rightBrace) (hk.starts hq₁).1 rfl
    have hlt := Nat.lt_of_le_of_lt hq₂.length_le (hk.starts hq₁).2
    obtain ⟨t, ht⟩ := reads_pair_of_spells hk hv hq hm hstop x
    suffices hrec : ∃ t', Reads n es (pairs (expr m) l) (pastComma (t :: mid)) ps (t' :: u :: rest) by
      obtain ⟨t', ht'⟩ := hrec
      exact ⟨t', reads_pairs_succ.2 (.inr ⟨hne, q, ps, _, rfl, ht, hmid.symm, ht'⟩)⟩
    cases ps with
    | nil =>
      obtain rfl := spells_nil.1 hps
      rw [pastComma, List.tail_cons, headKind_cons, if_pos hu]
      exact ⟨t, reads_pairs_done (by simp only [List.length_cons] at hlt ⊢; omega) hu⟩
    | cons q' ps =>
      -- the comma is now the token before the next pair
      rw [List.map_cons, List.flatMap_cons, List.cons_append] at hps
      obtain ⟨c, us, hc, -, rfl, hps'⟩ := spells_cons.1 hps
      rw [pastComma, List.tail_cons, if_neg (by rw [headKind_cons, hc]; decide)]
      simp only [List.length_cons] at hlt
      exact ih (fun p hp => h p (List.mem_cons_of_mem q hp)) hps' (by omega) (by omega) c

end Pairs

/-! ## Statements -/

/-- A statement is read back from its own tokens, unless what follows goes on with it. -/
def Stmt.ReadsBack (n : Nat) (es : List ParseError) (s : Stmt) : Prop :=
  ∀ ⦃ts rest m⦄, Spells s.words ts rest → ts.length ≤ m → headKind rest ≠ .semicolon →
    (∀ e, s = .expr e → Continuation.ofKind? (headKind rest) = none) →
    ∃ t, Reads n es (statement (Parser.expr m)) ts s (t :: rest)

/-- An expression closed by a semicolon. -/
theorem Expr.ReadsBack.closed {e : Expr} (h : e.ReadsBack n es) (he : e.plain = true)
    (hs : Spells (e.words ++ [.sign ';']) ts rest) {m : Nat} (hm : ts.length ≤ m) :
    ∃ ts₁ t, Reads n es (expr m .lowest) ts e ts₁ ∧ pastSemicolon ts₁ = t :: rest := by
  obtain ⟨c, hc, h₁⟩ := hs.before
  obtain ⟨t, ht⟩ := h.whole he h₁ hm (Precedence.lowest_le _) (by rw [headKind_cons, hc]; rfl)
  exact ⟨_, c, ht, if_pos hc⟩

theorem Stmt.apart_of_cons {s : Stmt} {ss : List Stmt} (h : Stmt.apart (s :: ss) = true) :
    Stmt.apart ss = true := by
  cases ss with
  | nil => rfl
  | cons s' ss => cases s <;> simp_all [Stmt.apart]

/-- After a statement comes the end, or a statement that does not go on with it. -/
theorem headKind_of_spells_next {s : Stmt} {ss : List Stmt} (h : ∀ s' ∈ ss, s'.plain = true)
    (ha : Stmt.apart (s :: ss) = true) {stops : Token.Kind → Bool} (hd : Delimits stops)
    (hr : stops (headKind rest) = true) (hk : Continuation.ofKind? (headKind rest) = none)
    (hs : Spells (ss.flatMap Stmt.words) ts rest) :
    headKind ts ≠ .semicolon ∧ ∀ e, s = .expr e → Continuation.ofKind? (headKind ts) = none := by
  cases ss with
  | nil =>
    rw [spells_nil.1 hs]
    refine ⟨fun he => ?_, fun _ _ => hk⟩
    rw [he, hd.semicolon] at hr
    cases hr
  | cons s' ss =>
    obtain ⟨w, ws, hw, hst, ho⟩ := plainCases_firstWord.of_stmt s' (h s' (by simp))
    rw [List.flatMap_cons, hw, List.cons_append] at hs
    rw [hs.headKind_first.1]
    refine ⟨fun he => by (rw [he] at hst; cases hst), ?_⟩
    -- a statement that opens with a bracket would go on with an expression, and such are kept apart
    rintro e rfl
    simp only [Stmt.apart, Bool.and_eq_true, Bool.not_eq_true'] at ha
    exact ho.resolve_right (by rw [ha.1]; decide)

theorem reads_statements_of_spells {ss : List Stmt} (h : ∀ s ∈ ss, s.plain = true ∧ s.ReadsBack n es)
    (ha : Stmt.apart ss = true) {stops : Token.Kind → Bool} (hd : Delimits stops)
    (hr : stops (headKind rest) = true) (hk : Continuation.ofKind? (headKind rest) = none)
    (hs : Spells (ss.flatMap Stmt.words) ts rest) {m l : Nat} (hm : ts.length ≤ m) (hl : ts.length ≤ l) :
    Reads n es (statements (expr m) stops l) ts ss rest := by
  induction ss generalizing ts l with
  | nil =>
    obtain rfl := spells_nil.1 hs
    cases l with
    | zero => exact reads_statements_zero.2 ⟨rfl, rfl⟩
    | succ l => exact reads_statements_succ.2 (.inl ⟨hr, rfl, rfl⟩)
  | cons s ss ih =>
    rw [List.flatMap_cons] at hs
    obtain ⟨mid, h₁, h₂⟩ := spells_append.1 hs
    obtain ⟨hp, hb⟩ := h s (by simp)
    obtain ⟨w, ws, hw, hst, -⟩ := plainCases_firstWord.of_stmt s hp
    rw [hw] at h₁
    obtain ⟨hk₁, hlt⟩ := h₁.headKind_first
    rw [← hw] at h₁
    obtain ⟨l, rfl⟩ : ∃ k, l = k + 1 := ⟨l - 1, by omega⟩
    have hplain : ∀ s' ∈ ss, s'.plain = true := fun s' hs' => (h s' (List.mem_cons_of_mem s hs')).1
    obtain ⟨hsemi, hstop⟩ := headKind_of_spells_next hplain ha hd hr hk h₂
    obtain ⟨t, ht⟩ := hb h₁ hm hsemi hstop
    refine reads_statements_succ.2 (.inr ⟨?_, s, ss, _, rfl, ht, ?_⟩)
    · rw [hk₁]; exact hd.of_startsStatement _ hst
    · exact ih (fun s' hs' => h s' (List.mem_cons_of_mem s hs')) (Stmt.apart_of_cons ha) h₂ (by omega) (by omega)

/-! ## Numbers -/

theorem Text.numeral_digits (n : Nat) : Text.numeral (Text.digits n) = n := Nat.ofDigitChars_ten_toDigits

theorem toInt_nonneg {i : Int64} (h : 0 ≤ i) : 0 ≤ i.toInt := by
  simpa using Int64.le_iff_toInt_le.1 h

theorem natAbs_toInt_lt {i : Int64} (h : 0 ≤ i) : i.toInt.natAbs < Text.integerLimit := by
  have h₀ := toInt_nonneg h
  have h₁ := Int64.toInt_lt i
  unfold Text.integerLimit
  omega

theorem ofNat_natAbs_toInt {i : Int64} (h : 0 ≤ i) : Int64.ofNat i.toInt.natAbs = i := by
  obtain ⟨k, hk⟩ := Int.eq_ofNat_of_zero_le (toInt_nonneg h)
  rw [hk, Int.natAbs_natCast, ← Int64.ofInt_toInt i, hk]
  rfl

/-! ## All forms -/

/-- A form that one token makes up. -/
theorem Expr.ReadsBack.of_word {e : Expr} {w : Word} (hw : e.words = [w])
    (h : ∀ m t rest, t.kind = w.kind → t.literal = w.literal →
      Reads n es (operand (expr m)) (t :: rest) e (t :: rest)) : e.ReadsBack n es := by
  intro ts rest hs
  rw [hw] at hs
  obtain ⟨t, us, hk, hl, rfl, hs'⟩ := spells_cons.1 hs
  obtain rfl := spells_nil.1 hs'
  exact .of_operand fun m _ => h m t _ hk hl

theorem Expr.readsBack_array {xs : List Expr} (h : ∀ e ∈ xs, e.plain = true ∧ e.ReadsBack n es) :
    (Expr.array xs).ReadsBack n es := by
  intro ts rest hs
  rw [words_array fun e he => (h e he).1] at hs
  obtain ⟨t, us, hk, -, rfl, hs'⟩ := spells_cons.1 hs
  obtain ⟨u, hu, h₁⟩ := hs'.before
  refine .of_operand (t := u) fun m hm => ?_
  rw [reads_operand, headKind_cons, hk]
  refine reads_array.2 ⟨xs, rfl, reads_items_of_spells (fun e he => ?_) hu (by decide) h₁
    (Nat.le_of_succ_le_succ hm) t⟩
  exact ((h e he).2.readsWhole (h e he).1).item rfl rfl m

theorem Expr.readsBack_hash {ps : List (Expr × Expr)}
    (h : ∀ q ∈ ps, (q.1.plain = true ∧ q.1.ReadsBack n es) ∧ q.2.plain = true ∧ q.2.ReadsBack n es) :
    (Expr.hash ps).ReadsBack n es := by
  intro ts rest hs
  rw [words_hash fun q hq => ⟨(h q hq).1.1, (h q hq).2.1⟩] at hs
  obtain ⟨t, us, hk, -, rfl, hs'⟩ := spells_cons.1 hs
  obtain ⟨u, hu, h₁⟩ := hs'.before
  refine .of_operand (t := u) fun m hm => ?_
  rw [reads_operand, headKind_cons, hk]
  have hps : ∀ q ∈ ps, ReadsWhole n es q.1.words q.1 ∧ ReadsWhole n es q.2.words q.2 := fun q hq =>
    ⟨(h q hq).1.2.readsWhole (h q hq).1.1, (h q hq).2.2.readsWhole (h q hq).2.1⟩
  obtain ⟨v, hv⟩ := reads_pairs_of_spells hu hps h₁ (Nat.le_of_succ_le_succ hm) (Nat.lt_succ_self _) t
  exact reads_hash.2 ⟨ps, _, rfl, hv, hu, rfl⟩

theorem Expr.readsBack_function {params : List String} {body : List Stmt} (hp : ∀ x ∈ params, isName x = true)
    (hb : ∀ s ∈ body, s.plain = true ∧ s.ReadsBack n es) (ha : Stmt.apart body = true) :
    (Expr.function params body).ReadsBack n es := by
  intro ts rest hs
  rw [words_function hp fun s hs => (hb s hs).1] at hs
  obtain ⟨t, us, hk, -, rfl, hs₁⟩ := spells_cons.1 hs
  obtain ⟨o, us₁, ho, -, rfl, hs₂⟩ := spells_cons.1 hs₁
  obtain ⟨c, us₂, hc, hps, hs₃⟩ := hs₂.between
  obtain ⟨o', us₃, ho', -, rfl, hs₄⟩ := spells_cons.1 hs₃
  obtain ⟨u, hu, hss⟩ := hs₄.before
  have hle := hps.length_le
  refine .of_operand (t := u) fun m hm => ?_
  simp only [List.length_cons] at hm hle
  rw [reads_operand, headKind_cons, hk]
  refine reads_function.2 ⟨params, body, c :: o' :: us₃, rfl, ho, ?_, ho', reads_block.2 ?_⟩
  · exact reads_items_of_spells (fun x _ => readsItem_param x m) hc (by decide) hps (by omega) o
  · exact reads_statements_of_spells hb ha delimits_endsBlock (by rw [headKind_cons, hu]; rfl)
      (by rw [headKind_cons, hu]; rfl) hss (by omega) (Nat.le_refl _)

theorem Expr.readsBack_unary {op : UnaryOp} {e : Expr} (he : e.plain = true) (h : e.ReadsBack n es) :
    (Expr.unary op e).ReadsBack n es := by
  intro ts rest hs
  rw [words_unary he] at hs
  obtain ⟨t, us, ht, -, rfl, hs₁⟩ := spells_cons.1 hs
  obtain ⟨o, us₁, ho, -, rfl, hs₂⟩ := spells_cons.1 hs₁
  obtain ⟨u, hu, h₁⟩ := hs₂.before
  refine .group ht hu (fun m hm => ?_) (Nat.succ_pos _)
  have hstop : Continuation.ofKind? (headKind (u :: rest)) = none := by rw [headKind_cons, hu]; rfl
  obtain ⟨v, hv⟩ := h.whole he h₁ (Nat.le_of_succ_le_succ hm) (Nat.le_refl _) hstop
  refine ⟨v, reads_expr_succ.2 ⟨.unary op e, _, ?_, reads_climb_stop hstop⟩⟩
  rw [reads_operand, headKind_cons, ho]
  cases op <;> exact reads_unary.2 ⟨e, rfl, hv⟩

theorem Expr.readsBack_binary {op : BinaryOp} {l r : Expr} (hl : l.plain = true) (h : l.ReadsBack n es)
    (hr : r.plain = true) (h' : r.ReadsBack n es) : (Expr.binary op l r).ReadsBack n es := by
  intro ts rest hs
  rw [words_binary hl hr] at hs
  obtain ⟨t, us, ht, -, rfl, hs₁⟩ := spells_cons.1 hs
  obtain ⟨o, us₁, ho, h₁, hs₂⟩ := hs₁.between
  obtain ⟨u, hu, h₂⟩ := hs₂.before
  have hlt := (h₁.startsOperand hl).2
  have hstop : Continuation.ofKind? (headKind (u :: rest)) = none := by rw [headKind_cons, hu]; rfl
  have hk : Continuation.ofKind? o.kind = some (.operator op) := by rw [ho]; cases op <;> rfl
  -- the closing parenthesis ends the right operand and then the whole
  refine .group ht hu (fun m hm => ?_) (Nat.zero_lt_of_lt hlt)
  simp only [List.length_cons] at hlt
  obtain ⟨v, hv⟩ := h'.whole hr h₂ (m := m) (by omega) (Precedence.operator_le_unary op) hstop
  exact ⟨v, (h h₁).continue hk hm (Precedence.lowest_le _) (Precedence.lowest_lt_operator op)
    (reads_continued_operator.2 ⟨r, rfl, hv⟩) fun _ _ => reads_climb_stop hstop⟩

theorem Expr.readsBack_call {f : Expr} {args : List Expr} (hf : f.plain = true) (h : f.ReadsBack n es)
    (ha : ∀ e ∈ args, e.plain = true ∧ e.ReadsBack n es) : (Expr.call f args).ReadsBack n es := by
  intro ts rest hs
  rw [words_call hf fun e he => (ha e he).1] at hs
  obtain ⟨o, us₁, ho, h₁, hs₁⟩ := hs.between
  obtain ⟨u, hu, h₂⟩ := hs₁.before
  have hlt := (h₁.startsOperand hf).2
  have hle := h₂.length_le
  simp only [List.length_cons] at hlt hle
  have hk : Continuation.ofKind? o.kind = some .call := by rw [ho]; rfl
  refine ⟨u, fun m p a ts' hp hm hc => ?_⟩
  have hitems := reads_items_of_spells (fun e he => ((ha e he).2.readsWhole (ha e he).1).item rfl rfl m) hu
    (by decide) h₂ (by omega) o
  exact (h h₁).continue hk hm hp (Precedence.lt_call_of_le_unary hp)
    (reads_continued_call.2 ⟨args, rfl, hitems⟩) fun j hj => hc j (by omega)

theorem Expr.readsBack_index {e i : Expr} (he : e.plain = true) (h : e.ReadsBack n es) (hi : i.plain = true)
    (h' : i.ReadsBack n es) : (Expr.index e i).ReadsBack n es := by
  intro ts rest hs
  rw [words_index he hi] at hs
  obtain ⟨t, us, ht, -, rfl, hs₁⟩ := spells_cons.1 hs
  obtain ⟨o, us₁, ho, h₁, hs₂⟩ := hs₁.between
  obtain ⟨b, vs, hb, h₂, hs₃⟩ := hs₂.between
  obtain ⟨u, us₂, hu, -, rfl, hs₄⟩ := spells_cons.1 hs₃
  obtain rfl := spells_nil.1 hs₄
  have hlt := (h₁.startsOperand he).2
  have hk : Continuation.ofKind? o.kind = some .index := by rw [ho]; rfl
  refine .group ht hu (fun m hm => ?_) (Nat.zero_lt_of_lt hlt)
  simp only [List.length_cons] at hlt
  obtain ⟨v, hv⟩ := h'.whole hi h₂ (m := m) (by omega) (Precedence.lowest_le _)
    (by rw [headKind_cons, hb]; rfl)
  exact ⟨b, (h h₁).continue hk hm (Precedence.lowest_le _) (by decide)
    (reads_continued_index.2 ⟨i, _, rfl, hv, hb, rfl⟩) fun _ _ =>
      reads_climb_stop (by rw [headKind_cons, hu]; rfl)⟩

theorem Stmt.readsBack_bind {name : String} {e : Expr} (hn : isName name = true) (he : e.plain = true)
    (h : e.ReadsBack n es) : (Stmt.bind name e).ReadsBack n es := by
  intro ts rest m hs hm _ _
  rw [words_bind hn he] at hs
  obtain ⟨t, us, ht, -, rfl, hs₁⟩ := spells_cons.1 hs
  obtain ⟨x, us₁, hx, hl, rfl, hs₂⟩ := spells_cons.1 hs₁
  obtain ⟨a, us₂, ha, -, rfl, hs₃⟩ := spells_cons.1 hs₂
  simp only [List.length_cons] at hm
  obtain ⟨ts₁, v, hv, hp⟩ := h.closed he hs₃ (m := m) (by omega)
  refine ⟨v, ?_⟩
  rw [reads_statement, headKind_cons, ht]
  refine reads_bindStatement.2 ⟨hx, ha, e, ts₁, ?_, hv, hp.symm⟩
  rw [List.tail_cons, headLiteral_cons, hl]

theorem Stmt.readsBack_ret {e : Expr} (he : e.plain = true) (h : e.ReadsBack n es) :
    (Stmt.ret (some e)).ReadsBack n es := by
  intro ts rest m hs hm _ _
  rw [words_ret he] at hs
  obtain ⟨t, us, ht, -, rfl, hs₁⟩ := spells_cons.1 hs
  obtain ⟨ts₁, v, hv, hp⟩ := h.closed he hs₁ (Nat.le_of_succ_le hm)
  refine ⟨v, ?_⟩
  rw [reads_statement, headKind_cons, ht]
  exact reads_returnStatement.2 ⟨e, ts₁, rfl, hv, hp.symm⟩

theorem ReadsWhole.statement {ws : List Word} {e : Expr} (h : ReadsWhole n es ws e) (hs : Spells ws ts rest)
    {m : Nat} (hm : ts.length ≤ m) (hsemi : headKind rest ≠ .semicolon)
    (hstop : Continuation.ofKind? (headKind rest) = none) :
    ∃ t, Reads n es (Parser.statement (expr m)) ts (.expr e) (t :: rest) := by
  obtain ⟨t, ht⟩ := h.reads hs m hm .lowest (Precedence.lowest_le _) hstop
  have hread := reads_statement_of_expr (h.starts hs).1 ht
  rw [pastSemicolon, List.tail_cons, if_neg hsemi] at hread
  exact ⟨t, hread⟩

theorem Stmt.readsBack_expr {e : Expr} (he : e.plain = true) (h : e.ReadsBack n es) :
    (Stmt.expr e).ReadsBack n es := by
  intro ts rest m hs hm hsemi hstop
  rw [words_expr] at hs
  exact (h.readsWhole he).statement hs hm hsemi (hstop e rfl)

theorem plainCases_readsBack : PlainCases (Expr.ReadsBack n es) (Stmt.ReadsBack n es) where
  ident name h := .of_word (words_ident h) fun m t rest hk hl => by
    rw [reads_operand, headKind_cons, hk]
    exact ⟨by rw [headLiteral_cons, hl], rfl⟩
  int i h := .of_word (words_int h) fun m t rest hk hl => by
    rw [reads_operand, headKind_cons, hk, reads_integer, headLiteral_cons, hl, String.toList_ofList,
      Text.numeral_digits, ofNat_natAbs_toInt h]
    exact ⟨natAbs_toInt_lt h, rfl, rfl⟩
  bool b := .of_word (words_bool b) fun m t rest hk _ => by
    rw [reads_operand, headKind_cons, hk]
    cases b <;> exact ⟨rfl, rfl⟩
  array _ h := Expr.readsBack_array h
  hash _ h := Expr.readsBack_hash h
  function _ _ hp hb ha := Expr.readsBack_function hp hb ha
  unary _ _ he h := Expr.readsBack_unary he h
  binary _ _ _ hl h hr h' := Expr.readsBack_binary hl h hr h'
  call _ _ hf h ha := Expr.readsBack_call hf h ha
  index _ _ he h hi h' := Expr.readsBack_index he h hi h'
  bind _ _ hn he h := Stmt.readsBack_bind hn he h
  ret _ he h := Stmt.readsBack_ret he h
  expr _ he h := Stmt.readsBack_expr he h

/-! ## Programs -/

/-- The tokens of the canonical text of a plain program spell its words. -/
theorem spells_tokenize_text {p : Program} (h : ∀ s ∈ p.statements, s.plain = true) :
    Spells (p.statements.flatMap Stmt.words) (Token.tokenize p.text).dropLast [] := by
  refine ⟨(Token.tokenize p.text).dropLast, ?_, (List.append_nil _).symm⟩
  have hw := wordsOf_statementTexts h Token.breaks_nil
  rw [List.append_nil, Token.wordsOf_nil, List.append_nil] at hw
  rw [← hw]
  refine (Token.Reader.map_word_body (.ofString p.text)).trans ?_
  rw [Token.Reader.ofString, Program.text, String.toList_intercalate]
  rfl

/-- The canonical text of a plain program is read as that program, without an error. -/
theorem parse_text_of_plain (p : Program) (h : p.plain = true) : parse p.text = ⟨p, []⟩ := by
  rw [Program.plain, Bool.and_eq_true] at h
  have hs : ∀ s ∈ p.statements, s.plain = true ∧ s.ReadsBack (Token.Reader.ofString p.text).finish [] :=
    plainCases_readsBack.of_stmts p.statements h.1
  have hr := reads_wholeProgram.2 (reads_statements_of_spells hs h.2 delimits_endOfInput rfl rfl
    (spells_tokenize_text fun s hm => (hs s hm).1) (Nat.le_refl _) (Nat.le_refl _))
  unfold Reads at hr
  rw [parse, Cursor.ofSource_eq, hr]
  rfl

/-- A nested function, a call of a function literal, a hash and an index, in three statements. -/
theorem parse_text_of_plain_nested :
    let p : Program := ⟨[.bind "f" (.function ["x", "y"] [.expr (.hash [(.bool true, .ident "x")]),
        .ret (some (.index (.array [.int 1, .unary .not (.ident "y")]) (.int 0)))]),
      .expr (.call (.call (.function [] [.expr (.int 7)]) []) [.binary .equal (.int 2) (.unary .neg (.int 3))]),
      .expr (.call (.ident "f") [])]⟩
    p.plain = true ∧ parse p.text = ⟨p, []⟩ :=
  ⟨by decide, parse_text_of_plain _ (by decide)⟩

end MonkeyLang
