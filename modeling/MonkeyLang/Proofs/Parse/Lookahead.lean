/-
A rule of the grammar sees the words that it takes and the kind of the token behind them, and nothing
else. `Local rest rest' N N' p q` says that what `p` reads before `rest` is read by `q` before `rest'`, on
tokens for the same words. The rules are local whenever the reader for the expressions inside is, so that
the reader of expressions is (`local_expr`), with bounds that need not be the same. With nothing behind
on either side, a clean run depends neither on the places of the tokens nor on the bound.

Two rules with different bounds are two different parsers, and where one bound is used up first their steps
differ too. So what is shown here goes by pairs of rules and cannot be had from the recipe of one.
-/
import MonkeyLang.Proofs.Parse.Rules
import MonkeyLang.Proofs.Token.Word

namespace MonkeyLang.Parser

variable {α β : Type} {rest rest' ts us ts' : List Token} {n n' : Nat} {es es' : List ParseError}

/-! ## Tokens for the same words -/

/-- The tokens before `rest` and those before `rest'` are tokens for the same words. -/
inductive Beside (rest rest' : List Token) : List Token → List Token → Prop where
  | rest : Beside rest rest' rest rest'
  | cons {t u : Token} {ts us : List Token} (hw : t.word = u.word) (h : Beside rest rest' ts us) :
    Beside rest rest' (t :: ts) (u :: us)

theorem beside_of_map_word (h : ts.map Token.word = us.map Token.word) :
    Beside rest rest' (ts ++ rest) (us ++ rest') := by
  induction ts generalizing us with
  | nil => rw [List.map_eq_nil_iff.1 h.symm]; exact .rest
  | cons t ts ih =>
    cases us with
    | nil => cases h
    | cons u us => exact .cons (List.cons.inj h).1 (ih (List.cons.inj h).2)

theorem Beside.exists_append (h : Beside rest rest' ts us) :
    ∃ xs ys, xs.map Token.word = ys.map Token.word ∧ ts = xs ++ rest ∧ us = ys ++ rest' := by
  induction h with
  | rest => exact ⟨[], [], rfl, rfl, rfl⟩
  | @cons t u _ _ hw _ ih =>
    obtain ⟨xs, ys, h, rfl, rfl⟩ := ih
    exact ⟨t :: xs, u :: ys, by rw [List.map_cons, List.map_cons, hw, h], rfl, rfl⟩

/-- A token before `rest` is still to be read; or nothing is behind, on either side. -/
def Before (rest rest' ts : List Token) : Prop := rest.length < ts.length ∨ rest = [] ∧ rest' = []

theorem Before.of_suffix (h : Before rest rest' ts') (hs : ts' <:+ ts) : Before rest rest' ts :=
  h.imp_left fun hlt => Nat.lt_of_lt_of_le hlt hs.length_le

/-- Before `rest` there is a current token on both sides, or on neither. -/
theorem Beside.cases_before (h : Beside rest rest' ts us) (hb : Before rest rest' ts) :
    (∃ t u ts₁ us₁, ts = t :: ts₁ ∧ us = u :: us₁ ∧ t.word = u.word ∧ Beside rest rest' ts₁ us₁) ∨
      (ts = [] ∧ us = [] ∧ rest = [] ∧ rest' = []) := by
  cases h with
  | rest =>
    obtain ⟨rfl, rfl⟩ := hb.resolve_left (Nat.lt_irrefl _)
    exact .inr ⟨rfl, rfl, rfl, rfl⟩
  | cons hw h => exact .inl ⟨_, _, _, _, rfl, rfl, hw, h⟩

theorem Beside.tail (h : Beside rest rest' ts us) (hb : Before rest rest' ts) :
    Beside rest rest' ts.tail us.tail := by
  obtain ⟨t, u, ts₁, us₁, rfl, rfl, -, h₁⟩ | ⟨rfl, rfl, rfl, rfl⟩ := h.cases_before hb
  · exact h₁
  · exact h

theorem Beside.word_headD (h : Beside rest rest' ts us) (hb : Before rest rest' ts) (n n' : Nat) :
    (ts.headD (.endAt n)).word = (us.headD (.endAt n')).word := by
  obtain ⟨t, u, ts₁, us₁, rfl, rfl, hw, -⟩ | ⟨rfl, rfl, -, -⟩ := h.cases_before hb
  · exact hw
  · rfl

theorem Beside.headKind_eq (hk : headKind rest = headKind rest') (h : Beside rest rest' ts us) :
    headKind ts = headKind us := by
  cases h with
  | rest => exact hk
  | cons hw _ => exact congrArg Token.Word.kind hw

/-! ## Statements without their semicolon -/

theorem bind_bind {γ : Type} (p : Parser α) (f : α → Parser β) (g : β → Parser γ) :
    p >>= f >>= g = p >>= fun a => f a >>= g := by
  funext c
  change (p >>= f >>= g).run c = (p >>= fun a => f a >>= g).run c
  simp only [run_bind]
  generalize p.run c = r
  obtain ⟨_ | a, c'⟩ := r <;> rfl

/-- A statement up to the semicolon that may close it, from the kind of its first token. -/
def clauseOf (expr : Precedence → Parser Expr) : Token.Kind → Parser Stmt
  | .letWord => do
    expect .ident
    let name ← current
    expect .assign
    advance
    let value ← expr .lowest
    return .bind name.literal value
  | .returnWord => do
    advance
    let value ← attempt (expr .lowest)
    return .ret value
  | _ => do
    let value ← expr .lowest
    return .expr value

def clause (expr : Precedence → Parser Expr) : Parser Stmt := current >>= fun t => clauseOf expr t.kind

theorem statement_eq (expr : Precedence → Parser Expr) :
    statement expr = clause expr >>= fun s => skipSemicolon >>= fun _ => pure s := by
  unfold statement clause clauseOf
  rw [bind_bind]
  congr
  funext t
  generalize t.kind = k
  split <;> simp only [bindStatement, returnStatement, expressionStatement, bind_bind] <;> rfl

instance lawful_clause (expr : Precedence → Parser Expr) [∀ p, Lawful (expr p)] : Lawful (clause expr) := by
  refine @lawful_bind _ _ _ _ _ fun t => ?_
  unfold clauseOf
  split <;> infer_instance

/-- A clause is read by the kind of its first token. -/
theorem reads_clause {expr : Precedence → Parser Expr} {s : Stmt} :
    Reads n es (clause expr) ts s ts' ↔ Reads n es (clauseOf expr (headKind ts)) ts s ts' := by
  rw [← kind_headD ts n]
  rfl

theorem reads_statement_clause {expr : Precedence → Parser Expr} [∀ p, Lawful (expr p)] {s : Stmt} :
    Reads n es (statement expr) ts s ts' ↔
      ∃ ts₁, Reads n es (clause expr) ts s ts₁ ∧ ts' = pastSemicolon ts₁ := by
  rw [statement_eq, reads_bind]
  simp only [reads_bind, reads_skipSemicolon, reads_pure]
  constructor
  · rintro ⟨_, ts₁, h, _, _, rfl, rfl, rfl⟩
    exact ⟨ts₁, h, rfl⟩
  · rintro ⟨ts₁, h, rfl⟩
    exact ⟨s, ts₁, h, (), _, rfl, rfl, rfl⟩

/-! ## Reading where no token is left -/

section Nil

theorem reads_moreItems_nil {item : Parser α} [Lawful item] {m : Nat} {as : List α} :
    Reads n es (moreItems item m) [] as [] ↔ as = [] := by
  cases m with
  | zero => simp
  | succ m => rw [reads_moreItems_succ]; simp

variable {expr : Precedence → Parser Expr} [∀ p, Lawful (expr p)] {m : Nat}

theorem reads_statements_nil {stops : Token.Kind → Bool} (hstops : stops .endOfInput = true) {ss : List Stmt} :
    Reads n es (statements expr stops m) [] ss [] ↔ ss = [] := by
  cases m with
  | zero => simp
  | succ m => rw [reads_statements_succ]; simp [hstops]

theorem not_reads_pairs_nil {ps : List (Expr × Expr)} : ¬ Reads n es (pairs expr m) [] ps [] := by
  intro h
  cases m with
  | zero => exact not_reads_pairs_zero h
  | succ m =>
    obtain ⟨h, -⟩ | ⟨-, p, ps', ts₁, -, hp, h, -⟩ := reads_pairs_succ.1 h
    · cases h
    · obtain rfl := List.suffix_nil.1 hp.suffix
      simp at h

theorem reads_climb_nil {p : Precedence} {left e : Expr} :
    Reads n es (climb expr p m left) [] e [] ↔ e = left := by
  cases m with
  | zero => simp
  | succ m => rw [reads_climb_succ]; simp [Continuation.ofKind?]

end Nil

theorem not_reads_expr_nil {m : Nat} {p : Precedence} {e : Expr} : ¬ Reads n es (expr m p) [] e ts' := by
  intro h
  cases m with
  | zero => exact not_reads_expr_zero h
  | succ m =>
    obtain ⟨l, ts₁, hl, -⟩ := reads_expr_succ.1 h
    rw [reads_operand] at hl
    exact hl

/-! ## Local readers -/

/-- What `p` reads from at most `N` tokens before `rest`, `q` reads from at most `N'` tokens before `rest'`. -/
structure Local (rest rest' : List Token) (N N' : Nat) (p q : Parser α) : Prop where
  left : Lawful p
  right : Lawful q
  reads : ∀ ⦃n es n' es' ts us a ts'⦄, Beside rest rest' ts us → ts.length ≤ N → us.length ≤ N' →
    Reads n es p ts a ts' → Before rest rest' ts' → ∃ us', Beside rest rest' ts' us' ∧ Reads n' es' q us a us'

variable {N N' : Nat} {p q : Parser α} {f g : α → Parser β}

theorem Local.mono (h : Local rest rest' N N' p q) {k k' : Nat} (hk : k ≤ N) (hk' : k' ≤ N') :
    Local rest rest' k k' p q :=
  ⟨h.left, h.right, fun _ _ _ _ _ _ _ _ hb ht hu => h.reads hb (Nat.le_trans ht hk) (Nat.le_trans hu hk')⟩

theorem local_pure (a : α) : Local rest rest' N N' (pure a) (pure a) where
  left := inferInstance
  right := inferInstance
  reads _ _ _ _ _ us _ _ h _ _ hr _ := by
    obtain ⟨rfl, rfl⟩ := reads_pure.1 hr
    exact ⟨us, h, reads_pure.2 ⟨rfl, rfl⟩⟩

theorem local_noOperand : Local rest rest' N N' (noOperand : Parser α) noOperand where
  left := inferInstance
  right := inferInstance
  reads _ _ _ _ _ _ _ _ _ _ _ hr _ := absurd hr not_reads_noOperand

theorem Local.bind (hp : Local rest rest' N N' p q) (hf : ∀ a, Local rest rest' N N' (f a) (g a)) :
    Local rest rest' N N' (p >>= f) (q >>= g) := by
  have := hp.left
  have := hp.right
  have := fun a => (hf a).left
  have := fun a => (hf a).right
  refine ⟨inferInstance, inferInstance, fun n es n' es' ts us b ts' h ht hu hr hb => ?_⟩
  obtain ⟨a, ts₁, h₁, h₂⟩ := (reads_bind p f).1 hr
  obtain ⟨us₁, hbs, hq⟩ : ∃ us₁, Beside rest rest' ts₁ us₁ ∧ Reads n' es' q us a us₁ :=
    hp.reads h ht hu h₁ (hb.of_suffix h₂.suffix)
  obtain ⟨us₂, hbs₂, hg⟩ : ∃ us₂, Beside rest rest' ts' us₂ ∧ Reads n' es' (g a) us₁ b us₂ :=
    (hf a).reads hbs (h₁.suffix.length_le.trans ht) (hq.suffix.length_le.trans hu) h₂ hb
  exact ⟨us₂, hbs₂, (reads_bind q g).2 ⟨a, us₁, hq, hg⟩⟩

theorem local_current {f g : Token → Parser β} (hf : ∀ t u, t.word = u.word → Local rest rest' N N' (f t) (g u)) :
    Local rest rest' N N' (current >>= f) (current >>= g) := by
  have := fun t => (hf t t rfl).left
  have := fun t => (hf t t rfl).right
  refine ⟨inferInstance, inferInstance, fun n es n' es' ts us b ts' h ht hu hr hb => ?_⟩
  have hw := h.word_headD (hb.of_suffix hr.suffix) n n'
  exact (hf _ _ hw).reads h ht hu hr hb

theorem local_advance : Local rest rest' N N' advance advance where
  left := inferInstance
  right := inferInstance
  reads _ _ _ _ _ us _ _ h _ _ hr hb := by
    have hbs := h.tail (hb.of_suffix hr.suffix)
    obtain rfl := reads_advance.1 hr
    exact ⟨us.tail, hbs, reads_advance.2 rfl⟩

theorem length_tail_le {k : Nat} (h : ts.length ≤ k + 1) : ts.tail.length ≤ k := by
  rw [List.length_tail]; omega

/-- Behind the first token there is one token less. -/
theorem local_advance_bind {f g : Unit → Parser β} (hf : Local rest rest' N N' (f ()) (g ())) :
    Local rest rest' (N + 1) (N' + 1) (advance >>= f) (advance >>= g) := by
  have : ∀ u, Lawful (f u) := fun _ => hf.left
  have : ∀ u, Lawful (g u) := fun _ => hf.right
  refine ⟨inferInstance, inferInstance, fun n es n' es' ts us b ts' h ht hu hr hb => ?_⟩
  have hbs := h.tail (hb.of_suffix hr.suffix)
  exact hf.reads hbs (length_tail_le ht) (length_tail_le hu) hr hb

theorem local_unread {f g : Nat → Parser β} [∀ k, Lawful (f k)] [∀ k, Lawful (g k)]
    (hf : ∀ k k', k ≤ N → k' ≤ N' → Local rest rest' k k' (f k) (g k')) :
    Local rest rest' N N' (unread >>= f) (unread >>= g) := by
  refine ⟨inferInstance, inferInstance, fun n es n' es' ts us b ts' h ht hu hr hb => ?_⟩
  exact (hf _ _ ht hu).reads h (Nat.le_refl _) (Nat.le_refl _) hr hb

theorem local_attempt (hp : Local rest rest' N N' p q) : Local rest rest' N N' (attempt p) (attempt q) := by
  have := hp.left
  have := hp.right
  refine ⟨inferInstance, inferInstance, fun n es n' es' ts us o ts' h ht hu hr hb => ?_⟩
  obtain ⟨a, rfl, ha⟩ := (reads_attempt p).1 hr
  obtain ⟨us', hbs, hq⟩ : ∃ us', Beside rest rest' ts' us' ∧ Reads n' es' q us a us' := hp.reads h ht hu ha hb
  exact ⟨us', hbs, (reads_attempt q).2 ⟨a, rfl, hq⟩⟩

theorem local_ite (b : Prop) [Decidable b] {p p' q q' : Parser α} (h : Local rest rest' N N' p q)
    (h' : Local rest rest' N N' p' q') :
    Local rest rest' N N' (if b then p else p') (if b then q else q') := by
  split
  · exact h
  · exact h'

/-- Where no token is left, neither side has any. -/
theorem local_of_nil [hp : Lawful p] [hq : Lawful q] (hN : N = 0 ∨ N' = 0)
    (h : ∀ n es n' es' a, Reads n es p [] a [] → Reads n' es' q [] a []) : Local rest rest' N N' p q where
  left := hp
  right := hq
  reads n es n' es' ts us a ts' hbs ht hu hr hb := by
    have hnil : ts = [] ∧ us = [] := by
      obtain ⟨t, u, ts₁, us₁, rfl, rfl, -, -⟩ | ⟨rfl, rfl, -, -⟩ := hbs.cases_before (hb.of_suffix hr.suffix)
      · simp only [List.length_cons] at ht hu
        omega
      · exact ⟨rfl, rfl⟩
    obtain ⟨rfl, rfl⟩ := hnil
    obtain rfl := List.suffix_nil.1 hr.suffix
    exact ⟨[], hbs, h n es n' es' a hr⟩

variable (hk : headKind rest = headKind rest')

include hk

theorem local_nextIs (k : Token.Kind) : Local rest rest' N N' (nextIs k) (nextIs k) where
  left := inferInstance
  right := inferInstance
  reads _ _ _ _ _ us _ _ h _ _ hr hb := by
    obtain ⟨rfl, rfl⟩ := reads_nextIs.1 hr
    exact ⟨us, h, reads_nextIs.2 ⟨by rw [(h.tail hb).headKind_eq hk], rfl⟩⟩

theorem local_peek {f g : Token → Parser β} (hf : ∀ t u, t.kind = u.kind → Local rest rest' N N' (f t) (g u)) :
    Local rest rest' N N' (peek >>= f) (peek >>= g) := by
  have := fun t => (hf t t rfl).left
  have := fun t => (hf t t rfl).right
  refine ⟨inferInstance, inferInstance, fun n es n' es' ts us b ts' h ht hu hr hb => ?_⟩
  have hkind : (ts.tail.headD (.endAt n)).kind = (us.tail.headD (.endAt n')).kind := by
    rw [kind_headD, kind_headD, (h.tail (hb.of_suffix hr.suffix)).headKind_eq hk]
  exact (hf _ _ hkind).reads h ht hu hr hb

theorem local_expect (k : Token.Kind) : Local rest rest' N N' (expect k) (expect k) where
  left := inferInstance
  right := inferInstance
  reads _ _ _ _ _ us _ _ h _ _ hr hb := by
    have hbs := h.tail (hb.of_suffix hr.suffix)
    obtain ⟨hkind, rfl⟩ := reads_expect.1 hr
    exact ⟨us.tail, hbs, reads_expect.2 ⟨by rw [← hbs.headKind_eq hk, hkind], rfl⟩⟩

/-! ## Lists -/

theorem local_skipSemicolon : Local rest rest' N N' skipSemicolon skipSemicolon := by
  unfold skipSemicolon
  exact (local_nextIs hk .semicolon).bind fun _ => local_ite _ local_advance (local_pure ())

theorem local_moreItems {item item' : Parser α} (hitem : Local rest rest' N N' item item') (m m' : Nat)
    (hm : m ≤ N) (hm' : m' ≤ N') : Local rest rest' m m' (moreItems item m) (moreItems item' m') := by
  have := hitem.left
  have := hitem.right
  induction m generalizing m' with
  | zero => exact local_of_nil (.inl rfl) fun _ _ _ _ _ hr => reads_moreItems_nil.2 (reads_moreItems_nil.1 hr)
  | succ m ih =>
    cases m' with
    | zero => exact local_of_nil (.inr rfl) fun _ _ _ _ _ hr => reads_moreItems_nil.2 (reads_moreItems_nil.1 hr)
    | succ m' =>
      unfold moreItems
      refine (local_nextIs hk .comma).bind fun _ => local_ite _ (local_advance_bind ?_) (local_pure [])
      refine (hitem.mono (by omega) (by omega)).bind fun _ => ?_
      exact (ih m' (by omega) (by omega)).bind fun _ => local_pure _

theorem local_items {item item' : Parser α} (hitem : Local rest rest' N N' item item') (close : Token.Kind) :
    Local rest rest' N N' (items item close) (items item' close) := by
  have := hitem.left
  have := hitem.right
  unfold items
  refine (local_nextIs hk close).bind fun _ => local_ite _ (local_advance.bind fun _ => local_pure [])
    (hitem.bind fun _ => local_unread fun k k' hN hN' => ?_)
  exact (local_moreItems hk hitem k k' hN hN').bind fun _ => (local_expect hk close).bind fun _ => local_pure _

theorem local_param : Local rest rest' N N' param param := by
  unfold param
  refine (local_expect hk .ident).bind fun _ => local_current fun t u hw => ?_
  rw [show t.literal = u.literal from congrArg Token.Word.literal hw]
  exact local_pure _

/-! ## Rules -/

section Rules

variable {expr expr' : Precedence → Parser Expr} (hexpr : ∀ p, Local rest rest' N N' (expr p) (expr' p))

include hexpr

theorem local_clause : Local rest rest' N N' (clause expr) (clause expr') := by
  refine local_current fun t u hw => ?_
  rw [show t.kind = u.kind from congrArg Token.Word.kind hw]
  unfold clauseOf
  split
  · refine (local_expect hk .ident).bind fun _ => local_current fun x y hxy => ?_
    rw [show x.literal = y.literal from congrArg Token.Word.literal hxy]
    exact (local_expect hk .assign).bind fun _ => local_advance.bind fun _ => (hexpr .lowest).bind fun _ =>
      local_pure _
  · exact local_advance.bind fun _ => (local_attempt (hexpr .lowest)).bind fun _ => local_pure _
  · exact (hexpr .lowest).bind fun _ => local_pure _

theorem local_statement : Local rest rest' N N' (statement expr) (statement expr') := by
  rw [statement_eq, statement_eq]
  exact (local_clause hk hexpr).bind fun s => (local_skipSemicolon hk).bind fun _ => local_pure s

theorem local_statements {stops : Token.Kind → Bool} (hstops : stops .endOfInput = true) (m m' : Nat)
    (hm : m ≤ N) (hm' : m' ≤ N') :
    Local rest rest' m m' (statements expr stops m) (statements expr' stops m') := by
  have := fun p => (hexpr p).left
  have := fun p => (hexpr p).right
  have hnil : ∀ k k' n es n' es' ss, Reads n es (statements expr stops k) [] ss [] →
      Reads n' es' (statements expr' stops k') [] ss [] := fun _ _ _ _ _ _ _ hr =>
    (reads_statements_nil hstops).2 ((reads_statements_nil hstops).1 hr)
  induction m generalizing m' with
  | zero => exact local_of_nil (.inl rfl) (hnil _ _)
  | succ m ih =>
    cases m' with
    | zero => exact local_of_nil (.inr rfl) (hnil _ _)
    | succ m' =>
      unfold statements
      refine local_current fun t u hw => ?_
      rw [show t.kind = u.kind from congrArg Token.Word.kind hw]
      refine local_ite _ (local_pure []) ?_
      refine (local_attempt ((local_statement hk hexpr).mono hm hm')).bind fun _ => local_advance_bind ?_
      exact (ih m' (by omega) (by omega)).bind fun _ => local_pure _

theorem local_block : Local rest rest' (N + 1) (N' + 1) (block expr) (block expr') := by
  have := fun p => (hexpr p).left
  have := fun p => (hexpr p).right
  unfold block
  exact local_advance_bind (local_unread (local_statements hk hexpr rfl))

omit hk hexpr in
theorem local_integer : Local rest rest' N N' integer integer := by
  unfold integer
  refine local_current fun t u hw => ?_
  rw [show t.literal = u.literal from congrArg Token.Word.literal hw]
  refine local_ite _ (local_pure _) ⟨inferInstance, inferInstance, fun _ _ _ _ _ _ _ _ _ _ _ hr _ => ?_⟩
  exact absurd hr not_reads_fail

omit hk in
theorem local_nextExpr : Local rest rest' (N + 1) (N' + 1) (nextExpr expr) (nextExpr expr') :=
  local_advance_bind (hexpr .lowest)

theorem local_conditional : Local rest rest' (N + 1) (N' + 1) (conditional expr) (conditional expr') := by
  have hblock := (local_block hk hexpr).mono (Nat.le_succ N) (Nat.le_succ N')
  unfold conditional
  refine (local_expect hk .leftParen).bind fun _ => local_advance_bind ?_
  refine (hexpr .lowest).bind fun _ => (local_expect hk .rightParen).bind fun _ =>
    (local_expect hk .leftBrace).bind fun _ => hblock.bind fun _ => ?_
  refine (local_nextIs hk .elseWord).bind fun _ => local_ite _ ?_ (local_pure _)
  exact local_advance.bind fun _ => (local_expect hk .leftBrace).bind fun _ => hblock.bind fun _ => local_pure _

/-- Behind a pair, too, there is one token less, because a pair begins by moving on. -/
theorem local_pair_bind {f g : Expr × Expr → Parser β} (hf : ∀ p, Local rest rest' N N' (f p) (g p)) :
    Local rest rest' (N + 1) (N' + 1) (pair expr >>= f) (pair expr' >>= g) := by
  have hvalue : ∀ k : Expr, Local rest rest' N N' (nextExpr expr >>= fun v => pure (k, v))
      (nextExpr expr' >>= fun v => pure (k, v)) := fun k =>
    ((local_nextExpr hexpr).mono (Nat.le_succ N) (Nat.le_succ N')).bind fun v => local_pure (k, v)
  have hpair := ((hexpr .lowest).bind fun k => (local_expect hk .colon).bind fun _ => hvalue k).bind hf
  exact local_advance_bind (f := fun _ => _) (g := fun _ => _) hpair

theorem local_pairs (m m' : Nat) (hm : m ≤ N + 1) (hm' : m' ≤ N' + 1) :
    Local rest rest' m m' (pairs expr m) (pairs expr' m') := by
  have := fun p => (hexpr p).left
  have := fun p => (hexpr p).right
  induction m generalizing m' with
  | zero => exact local_of_nil (.inl rfl) fun _ _ _ _ _ hr => absurd hr not_reads_pairs_nil
  | succ m ih =>
    cases m' with
    | zero => exact local_of_nil (.inr rfl) fun _ _ _ _ _ hr => absurd hr not_reads_pairs_nil
    | succ m' =>
      have hexpr' : ∀ p, Local rest rest' m m' (expr p) (expr' p) := fun p =>
        (hexpr p).mono (by omega) (by omega)
      have hps : ∀ p, Local rest rest' m m' (pairs expr m >>= fun ps => pure (p :: ps))
          (pairs expr' m' >>= fun ps => pure (p :: ps)) := fun p =>
        (ih m' (by omega) (by omega)).bind fun ps => local_pure (p :: ps)
      unfold pairs
      refine (local_nextIs hk .rightBrace).bind fun _ => local_ite _ (local_pure []) ?_
      refine local_pair_bind hk hexpr' fun p => (local_nextIs hk .rightBrace).bind fun _ => ?_
      exact local_ite _ ((local_expect hk .comma).bind fun _ => hps p) (hps p)

theorem local_operand : Local rest rest' (N + 1) (N' + 1) (operand expr) (operand expr') := by
  have := fun p => (hexpr p).left
  have := fun p => (hexpr p).right
  have hnext := local_nextExpr hexpr
  have hunary : ∀ op, Local rest rest' (N + 1) (N' + 1) (unary expr op) (unary expr' op) := fun op =>
    local_advance_bind ((hexpr .unary).bind fun _ => local_pure _)
  unfold operand
  refine local_current fun t u hw => ?_
  rw [show t.kind = u.kind from congrArg Token.Word.kind hw, show t.literal = u.literal from congrArg Token.Word.literal hw]
  split
  · exact local_pure _
  · exact local_integer
  · exact local_pure _
  · exact local_pure _
  · exact local_pure _
  · exact hunary .not
  · exact hunary .neg
  · exact local_advance_bind ((hexpr .lowest).bind fun _ => (local_expect hk .rightParen).bind fun _ => local_pure _)
  · exact local_conditional hk hexpr
  · exact (local_expect hk .leftParen).bind fun _ => (local_items hk (local_param hk) .rightParen).bind fun _ =>
      (local_expect hk .leftBrace).bind fun _ => (local_block hk hexpr).bind fun _ => local_pure _
  · exact (local_items hk hnext .rightBracket).bind fun _ => local_pure _
  · exact local_unread fun k k' hN hN' => (local_pairs hk hexpr k k' hN hN').bind fun _ =>
      (local_expect hk .rightBrace).bind fun _ => local_pure _
  · exact local_noOperand

theorem local_continued (left : Expr) (c : Continuation) :
    Local rest rest' (N + 1) (N' + 1) (continued expr left c) (continued expr' left c) := by
  have hnext := local_nextExpr hexpr
  cases c with
  | operator op => exact local_advance_bind ((hexpr op.precedence).bind fun _ => local_pure _)
  | call => exact (local_items hk hnext .rightParen).bind fun _ => local_pure _
  | index => exact hnext.bind fun _ => (local_expect hk .rightBracket).bind fun _ => local_pure _

theorem local_climb (p : Precedence) (m m' : Nat) (hm : m ≤ N + 1) (hm' : m' ≤ N' + 1) (left : Expr) :
    Local rest rest' m m' (climb expr p m left) (climb expr' p m' left) := by
  have := fun p => (hexpr p).left
  have := fun p => (hexpr p).right
  induction m generalizing m' left with
  | zero => exact local_of_nil (.inl rfl) fun _ _ _ _ _ hr => reads_climb_nil.2 (reads_climb_nil.1 hr)
  | succ m ih =>
    cases m' with
    | zero => exact local_of_nil (.inr rfl) fun _ _ _ _ _ hr => reads_climb_nil.2 (reads_climb_nil.1 hr)
    | succ m' =>
      unfold climb
      refine local_peek hk fun t u hkind => ?_
      rw [hkind]
      split
      · exact local_pure left
      · next c _ =>
        refine local_ite _ (local_advance_bind ?_) (local_pure left)
        refine ((local_continued hk hexpr left c).mono (by omega) (by omega)).bind fun l => ?_
        exact ih m' (by omega) (by omega) l

end Rules

/-- What is read as an expression before `rest` is read as the same expression before `rest'`, if the next
token is of the same kind there. -/
theorem local_expr (m m' : Nat) (p : Precedence) : Local rest rest' m m' (expr m p) (expr m' p) := by
  induction m generalizing m' p with
  | zero => exact local_of_nil (.inl rfl) fun _ _ _ _ _ hr => absurd hr not_reads_expr_nil
  | succ m ih =>
    cases m' with
    | zero => exact local_of_nil (.inr rfl) fun _ _ _ _ _ hr => absurd hr not_reads_expr_nil
    | succ m' =>
      unfold expr
      refine (local_operand hk (ih m')).bind fun l => local_unread fun k k' hN hN' => ?_
      exact local_climb hk (ih m') p k k' hN hN' l

end MonkeyLang.Parser
