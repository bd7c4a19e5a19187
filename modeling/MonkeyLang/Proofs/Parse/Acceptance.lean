/-
Reading a whole text. It always yields a program, and ends at the token for the end
(`exists_run_wholeProgram`); and it goes without an error exactly when the grammar derives the tokens of the text
as a sequence of statements (`parse_errors_eq_nil_iff`).
-/
import MonkeyLang.Proofs.Parse.Complete
import MonkeyLang.Proofs.Parse.Sound
import MonkeyLang.Proofs.Token.Reader

namespace MonkeyLang

open MonkeyLang.Parser Grammar

theorem Cursor.ofSource_eq (source : String) :
    Cursor.ofSource source =
      ⟨(Token.tokenize source).dropLast, .endAt (Token.Reader.ofString source).finish, []⟩ := by
  rw [Cursor.ofSource, Token.tokenize, Token.Reader.tokens_eq_body_append]
  simp

theorem Cursor.ahead_ofSource (source : String) :
    (Cursor.ofSource source).tokens ++ [(Cursor.ofSource source).last] = Token.tokenize source := by
  rw [Cursor.ofSource_eq, Token.tokenize, ← Token.Reader.body, ← Token.Reader.tokens_eq_body_append]

theorem proper_dropLast_tokenize (source : String) : Proper (Token.tokenize source).dropLast :=
  Token.Reader.kind_ne_of_mem_body

/-! ## Runs -/

/-- A loop over statements yields something, and ends where it is told to. -/
theorem Parser.stops_run_statements (expr : Precedence → Parser Expr) [∀ p, Lawful (expr p)]
    (stops : Token.Kind → Bool) (hstops : stops .endOfInput = true) {m : Nat} {c : Cursor}
    (hc : c.last.kind = .endOfInput) (hm : c.unread ≤ m) :
    ∃ ss c', (statements expr stops m).run c = (some ss, c') ∧ stops c'.current.kind = true := by
  induction m generalizing c with
  | zero =>
    refine ⟨[], c, rfl, ?_⟩
    rw [Cursor.current_eq_last (Nat.le_zero.1 hm), hc, hstops]
  | succ m ih =>
    by_cases hs : stops c.current.kind = true
    · refine ⟨[], c, ?_, hs⟩
      show Parser.run (if stops c.current.kind then _ else _) c = _
      rw [if_pos hs]
      rfl
    · -- a statement does not move back, and the cursor moves on behind it
      have hle : ((statement expr).run c).2.unread ≤ c.unread := ((lawful_statement expr).moves_on c).length_le
      have hlast : ((statement expr).run c).2.last = c.last := (lawful_statement expr).last_eq c
      obtain ⟨ss, c', hrun, hend⟩ := ih (c := ((statement expr).run c).2.advance) (hlast ▸ hc)
        (by rw [Cursor.unread_advance]; omega)
      refine ⟨((statement expr).run c).1.toList ++ ss, c', ?_, hend⟩
      show Parser.run (if stops c.current.kind then _ else _) c = _
      rw [if_neg hs]
      exact run_bind_some hrun _

/-- The whole text has been read: the current token is the one for the end. -/
theorem Parser.exists_run_wholeProgram (source : String) : ∃ c,
    wholeProgram.run (.ofSource source) = (some (parse source).program.statements, c) ∧
      c.errors = (parse source).errors ∧ c.current.kind = .endOfInput := by
  have hlast : (Cursor.ofSource source).last.kind = .endOfInput := by rw [Cursor.ofSource_eq]; rfl
  obtain ⟨ss, c, hrun, hend⟩ := stops_run_statements (expr (Cursor.ofSource source).unread) (· == .endOfInput) rfl
    hlast (Nat.le_refl _)
  have hparse : parse source = ⟨⟨ss⟩, c.errors⟩ := by
    rw [parse, show wholeProgram.run (.ofSource source) = (some ss, c) from hrun]
    rfl
  rw [hparse]
  exact ⟨c, hrun, rfl, beq_iff_eq.1 hend⟩

/-! ## Clean runs -/

/-- The reader of programs takes exactly the sequences of statements. -/
theorem exists_reads_wholeProgram_iff {n : Nat} {es : List ParseError} {ts : List Token} (hp : Proper ts) :
    (∃ ss ts', Reads n es wholeProgram ts ss ts') ↔ Derives .statements ts [] := by
  simp only [reads_wholeProgram]
  constructor
  · rintro ⟨ss, ts', h⟩
    obtain ⟨hd, hk⟩ := statements_sound (expr_sound _) rfl hp (Nat.le_refl _) h
    obtain rfl := (hp.suffix h.suffix).eq_nil (beq_iff_eq.1 hk)
    exact hd
  · intro h
    obtain ⟨ss, hss⟩ := statements_complete (expr_complete _) delimits_endOfInput rfl (Nat.le_refl _)
      (Nat.le_refl _) h
    exact ⟨ss, [], hss⟩

/-- A text has no error exactly when its tokens, the one for the end left out, are derivable as
statements. -/
theorem parse_errors_eq_nil_iff (source : String) :
    (parse source).errors = [] ↔ Derives .statements (Token.tokenize source).dropLast [] := by
  rw [← exists_reads_wholeProgram_iff (n := (Token.Reader.ofString source).finish)
    (proper_dropLast_tokenize source), exists_reads_iff, ← Cursor.ofSource_eq]
  rfl

end MonkeyLang
