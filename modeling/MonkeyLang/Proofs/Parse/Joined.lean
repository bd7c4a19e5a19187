/-
A text whose last statement is closed by a semicolon can have another text put behind it: with its
brackets paired, the statements are those of the first text followed by those of the second
(`parse_append_newline`). Every statement of the first text but the last is read before the same tokens
as before, and the last one stops at its semicolon, because a value with all its braces closed does not
end in one.
-/
import MonkeyLang.Proofs.Parse.Acceptance
import MonkeyLang.Proofs.Parse.Lookahead
import MonkeyLang.Proofs.Parse.Nesting
import Mathlib.Data.List.Basic

namespace MonkeyLang

open MonkeyLang.Parser Grammar Token

variable {n n' N N' : Nat} {es es' : List ParseError} {ts us ts' B : List Token} {s s' : Token}

/-! ## The last statement -/

namespace Parser

/-- The tokens of a statement before its value open no brace. -/
theorem exists_reads_of_clause {expr : Precedence → Parser Expr} [∀ p, Lawful (expr p)] {st : Stmt}
    (h : Reads n es (clause expr) ts st ts') :
    ∃ vs e, vs <:+ ts ∧ braces vs = braces ts ∧ Reads n es (expr .lowest) vs e ts' := by
  have htail : ∀ {ts : List Token} {k : Kind}, headKind ts = k → k.brace = 0 → braces ts.tail = braces ts := by
    rintro (_ | ⟨t, ts⟩) k rfl hk
    · rfl
    · rw [braces_cons, show t.kind.brace = 0 from hk, Int.zero_add, List.tail_cons]
  rw [reads_clause] at h
  unfold clauseOf at h
  split at h
  · next hlet =>
    simp only [reads_bind, reads_expect, reads_current, reads_advance, reads_pure] at h
    obtain ⟨_, _, ⟨hi, rfl⟩, _, _, ⟨rfl, rfl⟩, _, _, ⟨ha, rfl⟩, _, _, rfl, e, _, he, -, rfl⟩ := h
    refine ⟨_, e, ?_, ?_, he⟩
    · exact ((List.tail_suffix _).trans (List.tail_suffix _)).trans (List.tail_suffix _)
    · rw [htail ha rfl, htail hi rfl, htail hlet rfl]
  · next hret =>
    simp only [reads_bind, reads_attempt, reads_advance, reads_pure] at h
    obtain ⟨_, _, rfl, _, _, ⟨e, -, he⟩, -, rfl⟩ := h
    exact ⟨_, e, List.tail_suffix _, htail hret rfl, he⟩
  · simp only [reads_bind, reads_pure] at h
    obtain ⟨e, _, he, -, rfl⟩ := h
    exact ⟨_, e, List.suffix_refl _, rfl, he⟩

/-- With its braces closed, a statement does not take the semicolon that is the last token. -/
theorem one_lt_length_of_clause {st : Stmt} (hs : s.kind = .semicolon) (hlast : ts.getLast? = some s)
    (hp : Proper ts) (hb : braces ts = 0) (h : Reads n es (clause (expr N)) ts st ts') : 1 < ts'.length := by
  obtain ⟨vs, e, hvs, hbv, he⟩ := exists_reads_of_clause h
  by_contra hlen
  have hnil : ts'.tail = [] := by
    rw [← List.length_eq_zero_iff, List.length_tail]; omega
  have hd := (expr_sound N).expression (hp.suffix hvs) he
  rw [hnil] at hd
  rcases hd.nested with ⟨-, hpos⟩ | ⟨-, p, hvp, hends⟩
  · omega
  · rw [List.append_nil] at hvp
    subst hvp
    have hne : vs ≠ [] := by
      rintro rfl
      exact not_reads_expr_nil he
    obtain ⟨q, rfl⟩ := hvs
    rw [List.getLast?_append_of_ne_nil _ hne] at hlast
    cases hends s hlast hs

theorem Beside.getLast?_eq (h : Beside [s] us ts ts') : ts.getLast? = some s := by
  obtain ⟨xs, ys, -, rfl, -⟩ := h.exists_append
  exact List.getLast?_concat

/-! ## Statements -/

/-- Before the last semicolon of a program, a statement ends before the same tokens as in a program on its
own. -/
theorem Beside.cases_semicolon (hk : s.kind = .semicolon) (hk' : s'.kind = .semicolon)
    (h : Beside [s] (s' :: B) ts.tail us.tail) :
    ((pastSemicolon ts).tail = [] ∧ (pastSemicolon us).tail = B) ∨
      Beside [s] (s' :: B) (pastSemicolon ts).tail (pastSemicolon us).tail := by
  have htail : ∀ vs, (pastSemicolon vs).tail = if headKind vs.tail = .semicolon then vs.tail.tail else vs.tail := by
    intro vs
    unfold pastSemicolon
    split <;> rfl
  rw [htail, htail]
  revert h
  generalize ts.tail = ts, us.tail = us
  intro h
  cases h with
  | rest => exact .inl (by simp [hk, hk'])
  | @cons t u ts us hw h =>
    right
    have hkind : headKind (t :: ts) = headKind (u :: us) := congrArg Token.Word.kind hw
    by_cases hu : headKind (u :: us) = .semicolon
    · rw [if_pos (hkind.trans hu), if_pos hu]; exact h
    · rw [if_neg (hkind ▸ hu), if_neg hu]; exact .cons hw h

/-- A program behind which another one is read. -/
theorem reads_statements_append {ss tt : List Stmt} {m m' : Nat} (hs : s.kind = .semicolon)
    (hs' : s'.kind = .semicolon) (hB : ∀ k, B.length ≤ k → k ≤ N' →
      Reads n' es' (statements (expr N') (· == .endOfInput) k) B tt [])
    (hbs : Beside [s] (s' :: B) ts us) (hp : Proper ts) (hb : braces ts = 0) (ht : ts.length ≤ N)
    (hu : us.length ≤ m') (hm' : m' ≤ N')
    (h : Reads n es (statements (expr N) (· == .endOfInput) m) ts ss []) :
    Reads n' es' (statements (expr N') (· == .endOfInput) m') us (ss ++ tt) [] := by
  have hk : headKind [s] = headKind (s' :: B) := hs.trans hs'.symm
  induction m generalizing ts us ss m' with
  | zero =>
    obtain ⟨-, rfl⟩ := reads_statements_zero.1 h
    cases hbs
  | succ m ih =>
    have hne : us ≠ [] := by rintro rfl; cases hbs
    obtain ⟨m', rfl⟩ : ∃ k, m' = k + 1 :=
      ⟨m' - 1, by have := List.length_pos_iff.2 hne; omega⟩
    rcases reads_statements_succ.1 h with ⟨-, -, rfl⟩ | ⟨hstop, st, ss', ts₁, rfl, h₁, h₂⟩
    · cases hbs
    · obtain ⟨ts₂, hc, rfl⟩ := reads_statement_clause.1 h₁
      have hlong := one_lt_length_of_clause hs hbs.getLast?_eq hp hb hc
      obtain ⟨us₂, hbs₂, hc'⟩ : ∃ us₂, Beside [s] (s' :: B) ts₂ us₂ ∧ Reads n' es' (clause (expr N')) us st us₂ :=
        (local_clause hk (local_expr hk N N')).reads hbs ht (hu.trans hm') hc (.inl hlong)
      have hstop' : (headKind us == .endOfInput) = false := by rwa [← hbs.headKind_eq hk]
      have h₁' : Reads n' es' (statement (expr N')) us st (pastSemicolon us₂) :=
        reads_statement_clause.2 ⟨us₂, hc', rfl⟩
      have hlen : (pastSemicolon us₂).tail.length ≤ m' := by
        have := h₁'.suffix.length_le
        rw [List.length_tail]; omega
      refine reads_statements_succ.2 (.inr ⟨hstop', st, ss' ++ tt, pastSemicolon us₂, rfl, h₁', ?_⟩)
      rcases (hbs₂.tail (.inl hlong)).cases_semicolon hs hs' with ⟨hnil, hB'⟩ | hbs'
      · rw [hnil, reads_statements_nil rfl] at h₂
        rw [hB', h₂]
        exact hB m' (hB' ▸ hlen) (by omega)
      · have hsuf : (pastSemicolon ts₂).tail <:+ ts := (List.tail_suffix _).trans h₁.suffix
        have hbr : braces (pastSemicolon ts₂).tail = 0 := by
          rcases (statement_sound (expr_sound N) hp h₁).nested with ⟨hnil, -⟩ | ⟨heq, -⟩
          · rw [hnil] at hbs'; cases hbs'
          · rw [← heq, hb]
        exact ih hbs' (hp.suffix hsuf) hbr (hsuf.length_le.trans ht) hlen (by omega) h₂

/-! ## Texts -/

theorem parse_of_reads {source : String} {ss : List Stmt}
    (h : Reads (Token.Reader.ofString source).finish [] wholeProgram (Token.tokenize source).dropLast ss []) :
    parse source = ⟨⟨ss⟩, []⟩ := by
  rw [parse, Cursor.ofSource_eq, show wholeProgram.run _ = _ from h]; rfl

/-- A text that is read as an expression to its end. -/
theorem parse_of_reads_expr {source : String} {e : Expr} {t : Token}
    (hstart : startsOperand (headKind (tokenize source).dropLast) = true)
    (h : Reads (Token.Reader.ofString source).finish [] (expr (tokenize source).dropLast.length .lowest)
      (tokenize source).dropLast e [t]) : parse source = ⟨⟨[.expr e]⟩, []⟩ := by
  refine parse_of_reads (reads_wholeProgram.2 ?_)
  have hs := reads_statement_of_expr hstart h
  have hend : headKind (tokenize source).dropLast ≠ .endOfInput := headKind_ne_of_startsOperand hstart rfl
  obtain ⟨k, hk⟩ := Nat.exists_eq_succ_of_ne_zero (Nat.ne_zero_of_lt (length_tail_lt hend))
  rw [hk] at hs ⊢
  exact reads_statements_succ.2 (.inr ⟨beq_eq_false_iff_ne.2 hend, .expr e, [], [t], rfl, hs,
    (reads_statements_nil rfl).2 rfl⟩)

/-- A text without an error is read to its end. -/
theorem reads_of_parse {source : String} (h : (parse source).errors = []) :
    Reads (Token.Reader.ofString source).finish [] wholeProgram (Token.tokenize source).dropLast
      (parse source).program.statements [] := by
  have hp := proper_dropLast_tokenize source
  have hr : (wholeProgram.run (Cursor.ofSource source)).2.errors = [] := h
  rw [Cursor.ofSource_eq, ← exists_reads_iff] at hr
  obtain ⟨ss, ts', hr⟩ := hr
  have hend := (statements_sound (expr_sound _) rfl hp (Nat.le_refl _) (reads_wholeProgram.1 hr)).2
  obtain rfl := (hp.suffix hr.suffix).eq_nil (beq_iff_eq.1 hend)
  rwa [parse_of_reads hr]

/-- What is read from a text on its own is read from tokens for the same words, at any bounds. -/
theorem reads_statements_of_words {ss : List Stmt} {k : Nat}
    (hw : ts.map Token.word = us.map Token.word) (h : Reads n es wholeProgram ts ss []) (hk : us.length ≤ k)
    (hN : k ≤ N') : Reads n' es' (statements (expr N') (· == .endOfInput) k) us ss [] := by
  have hbs : Beside [] [] (ts ++ []) (us ++ []) := beside_of_map_word hw
  rw [List.append_nil, List.append_nil] at hbs
  obtain ⟨us', hbs', h'⟩ : ∃ us', Beside [] [] [] us' ∧
      Reads n' es' (statements (expr N') (· == .endOfInput) k) us ss us' :=
    (local_statements rfl (local_expr rfl ts.length N') rfl ts.length k (Nat.le_refl _) hN).reads hbs
      (Nat.le_refl _) hk (reads_wholeProgram.1 h) (.inr ⟨rfl, rfl⟩)
  cases hbs'
  exact h'

end Parser

/-- The words of a text without an error are not joined with those of the next line. -/
theorem map_word_tokenize_append {a : String} (ha : (parse a).errors = []) (b : String) :
    (Token.tokenize (a ++ "\n" ++ b)).dropLast.map Token.word =
      (Token.tokenize a).dropLast.map Token.word ++ (Token.tokenize b).dropLast.map Token.word := by
  have hd := (exists_reads_wholeProgram_iff (proper_dropLast_tokenize a)).1 ⟨_, _, reads_of_parse ha⟩
  have hlegal : ∀ w ∈ Token.wordsOf a.toList, w.kind ≠ .illegal := by
    rw [← Token.map_word_tokenize, List.forall_mem_map]
    exact hd.kind_ne_illegal
  have hjoin : (a ++ "\n" ++ b).toList = a.toList ++ '\n' :: b.toList := by simp
  rw [Token.map_word_tokenize, Token.map_word_tokenize, Token.map_word_tokenize, hjoin,
    Token.wordsOf_append_of_legal hlegal (Token.breaks_cons rfl _), Token.wordsOf_newline]

/-- A text that ends in a semicolon, its brackets paired, can have another text on the next line. -/
theorem parse_append_newline {a b : String} (ha : (parse a).errors = []) (hb : (parse b).errors = [])
    (hlast : (Token.tokenize a).dropLast.getLast?.map Token.kind = some .semicolon)
    (hbal : Token.Balanced (Token.tokenize a).dropLast) :
    parse (a ++ "\n" ++ b) = ⟨⟨(parse a).program.statements ++ (parse b).program.statements⟩, []⟩ := by
  obtain ⟨s, hlast, hs⟩ := Option.map_eq_some_iff.1 hlast
  obtain ⟨xs, hxs⟩ := List.getLast?_eq_some_iff.1 hlast
  obtain ⟨A, B, hT, hA, hB⟩ := List.map_eq_append_iff.1 (map_word_tokenize_append ha b)
  rw [hxs, List.map_append] at hA
  obtain ⟨ys, us, rfl, hys, hus⟩ := List.map_eq_append_iff.1 hA
  obtain ⟨s', rfl, hs'⟩ := List.map_eq_singleton_iff.1 hus
  have hra := reads_of_parse ha
  have hbr := hbal.braces_eq_zero
  have hp := proper_dropLast_tokenize a
  rw [hxs] at hra hbr hp
  have hT' : (Token.tokenize (a ++ "\n" ++ b)).dropLast = ys ++ s' :: B := by rw [hT]; simp
  refine parse_of_reads (reads_wholeProgram.2 ?_)
  rw [hT']
  refine reads_statements_append hs ((congrArg Token.Word.kind hs').trans hs) (fun k hk hkN => ?_)
    (beside_of_map_word hys.symm) hp hbr (Nat.le_refl _) (Nat.le_refl _) (Nat.le_refl _)
    (reads_wholeProgram.1 hra)
  exact reads_statements_of_words hB.symm (reads_of_parse hb) hk hkN

end MonkeyLang
