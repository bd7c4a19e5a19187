/-
Errors end at a semicolon. Whatever is wrong with a text, if it opens no brace and leaves no string open,
then the statements behind its next semicolon are read as if they stood alone, and no error lies behind
that semicolon (`parse_recovers_at_semicolon`). The reason is that no rule outside of braces moves past
a semicolon (`Seam.discipline`): an expression that can be read ends before it, one that cannot be read stops
at it at the latest, and a statement takes it only as its own end.
-/
import MonkeyLang.Proofs.Parse.Discipline
import MonkeyLang.Proofs.Parse.Joined
import MonkeyLang.Proofs.Token.Separation

namespace MonkeyLang

open MonkeyLang.Parser Grammar

/-- A semicolon in a text of `finish` bytes, and the tokens behind it, which do not begin with another one. -/
structure Seam where
  semicolon : Token
  kind : semicolon.kind = .semicolon
  behind : List Token
  headKind_ne : headKind behind ≠ .semicolon
  finish : Nat

namespace Seam

variable {S : Seam} {c : Cursor} {x t : Token} {xs : List Token}

/-- The cursor has the tokens `xs` to read before the seam. None of them opens a brace, and all errors
so far lie before the end of the semicolon. -/
structure At (S : Seam) (xs : List Token) (c : Cursor) : Prop where
  tokens : c.tokens = xs ++ S.semicolon :: S.behind
  last : c.last = .endAt S.finish
  kinds : ∀ x ∈ xs, x.kind ≠ .leftBrace ∧ x.kind ≠ .endOfInput
  stops : ∀ x ∈ xs, x.span.stop ≤ S.semicolon.span.stop
  errors : ∀ e ∈ c.errors, e.span.stop ≤ S.semicolon.span.stop

/-- The semicolon is the current token or still to come. -/
def UpTo (S : Seam) (c : Cursor) : Prop := ∃ xs, S.At xs c

/-- The semicolon is still to come. -/
def Before (S : Seam) (c : Cursor) : Prop := ∃ x xs, S.At (x :: xs) c

theorem Before.upTo (h : S.Before c) : S.UpTo c := by
  obtain ⟨x, xs, h⟩ := h
  exact ⟨x :: xs, h⟩

/-! ## The current token and the next one -/

theorem At.current_mem (h : S.At xs c) : c.current ∈ xs ++ [S.semicolon] := by
  cases xs with
  | nil => simp [Cursor.current, h.tokens]
  | cons x xs => simp [Cursor.current, h.tokens]

theorem At.peek_mem (h : S.At (x :: xs) c) : c.peek ∈ xs ++ [S.semicolon] := by
  cases xs with
  | nil => simp [Cursor.peek, h.tokens]
  | cons y ys => simp [Cursor.peek, h.tokens]

theorem At.kind_ne (h : S.At xs c) (ht : t ∈ xs ++ [S.semicolon]) : t.kind ≠ .leftBrace ∧ t.kind ≠ .endOfInput := by
  rcases List.mem_append.1 ht with ht | ht
  · exact h.kinds t ht
  · rw [List.mem_singleton.1 ht, S.kind]
    decide

theorem At.stop_le (h : S.At xs c) (ht : t ∈ xs ++ [S.semicolon]) : t.span.stop ≤ S.semicolon.span.stop := by
  rcases List.mem_append.1 ht with ht | ht
  · exact h.stops t ht
  · rw [List.mem_singleton.1 ht]

/-- An error at a token before the end of the semicolon. -/
theorem At.report (h : S.At xs c) (cause : ParseError.Cause) (ht : t.span.stop ≤ S.semicolon.span.stop) :
    S.At xs (c.report cause t) where
  tokens := h.tokens
  last := h.last
  kinds := h.kinds
  stops := h.stops
  errors e he := by
    rcases List.mem_append.1 he with he | he
    · exact h.errors e he
    · rw [List.mem_singleton.1 he]
      exact ht

theorem At.advance (h : S.At (x :: xs) c) : S.At xs c.advance where
  tokens := by rw [Cursor.advance, h.tokens]; rfl
  last := h.last
  kinds y hy := h.kinds y (List.mem_cons_of_mem x hy)
  stops y hy := h.stops y (List.mem_cons_of_mem x hy)
  errors := h.errors

theorem UpTo.kind_current_ne (h : S.UpTo c) : c.current.kind ≠ .leftBrace ∧ c.current.kind ≠ .endOfInput := by
  obtain ⟨xs, h⟩ := h
  exact h.kind_ne h.current_mem

theorem UpTo.before (h : S.UpTo c) (hk : c.current.kind ≠ .semicolon) : S.Before c := by
  obtain ⟨_ | ⟨x, xs⟩, h⟩ := h
  · have hcurrent : c.current = S.semicolon := by simpa using h.current_mem
    exact absurd (hcurrent ▸ S.kind) hk
  · exact ⟨x, xs, h⟩

theorem UpTo.report_current (h : S.UpTo c) (cause : ParseError.Cause) : S.UpTo (c.report cause c.current) := by
  obtain ⟨xs, h⟩ := h
  exact ⟨xs, h.report cause (h.stop_le h.current_mem)⟩

theorem Before.advance (h : S.Before c) : S.UpTo c.advance := by
  obtain ⟨x, xs, h⟩ := h
  exact ⟨xs, h.advance⟩

theorem Before.report_peek (h : S.Before c) (cause : ParseError.Cause) : S.UpTo (c.report cause c.peek) := by
  obtain ⟨x, xs, h⟩ := h
  exact ⟨x :: xs, h.report cause (h.advance.stop_le h.peek_mem)⟩

/-- Behind the semicolon there is not another one that could be taken. -/
theorem UpTo.advance_of_semicolon (h : S.UpTo c) (hk : c.peek.kind = .semicolon) : S.UpTo c.advance := by
  obtain ⟨_ | ⟨x, xs⟩, h⟩ := h
  · -- at the semicolon, the next token is the first one behind it
    have hpeek : c.peek.kind = headKind S.behind := by
      rw [Cursor.peek, h.tokens, h.last, List.nil_append, List.tail_cons, kind_headD]
    exact absurd (hpeek.symm.trans hk) S.headKind_ne
  · exact ⟨xs, h.advance⟩

/-! ## Statements -/

/-- Where the cursor is on each stage: before the semicolon inside of a rule, and up to it otherwise. There is no brace
that a block could begin with. -/
def Keeps (S : Seam) : Stage → Cursor → Prop
  | .inside => S.Before
  | .start | .settled | .stuck => S.UpTo
  | .turn => fun _ => False

def discipline (S : Seam) : Discipline where
  holds x _ := S.Keeps x
  within h hc := by
    cases h with
    | inside_start | inside_settled => exact hc.upTo
    | stuck_settled => exact hc
    | turn_start | turn_inside => exact hc.elim
  forget _ hc := hc
  begun hc hk := hc.before hk
  leaf hc := hc
  advance hc := hc.advance
  enter hc hk := absurd hk hc.kind_current_ne.1
  skip hc hk := hc.advance_of_semicolon hk
  again hc _ := hc.elim
  expected _ hc := hc.report_peek _
  noOperand hc := hc.report_current _
  tooLarge hc _ _ := hc.report_current _
  lapse hc := hc

theorem triple_statement (N : Nat) : Triple S.UpTo (statement (expr N)) (fun _ => S.UpTo) S.UpTo :=
  ((Recipe.statement (Recipe.expr N)).triple S.discipline []).of_pre fun _ hc => ⟨hc, trivial⟩

/-- The program ends with the statements `ss`, and no error lies behind the semicolon. -/
def Recovers (S : Seam) (ss tt : List Stmt) (c : Cursor) : Prop :=
  ss <:+ tt ∧ ∀ e ∈ c.errors, e.span.stop ≤ S.semicolon.span.stop

/-- One turn: a token is passed that is not behind the semicolon, and reading goes on before the semicolon
or right behind it. -/
theorem triple_turn {N m : Nat} {ss : List Stmt}
    (hss : ∀ es, S.behind.length ≤ m → Reads S.finish es (statements (expr N) (· == .endOfInput) m) S.behind ss [])
    (ih : Triple (fun c => S.UpTo c ∧ c.unread ≤ m) (statements (expr N) (· == .endOfInput) m) (S.Recovers ss)
      fun _ => False) (st : Option Stmt) :
    Triple (fun c => S.UpTo c ∧ c.unread ≤ m + 1)
      (advance >>= fun _ => statements (expr N) (· == .endOfInput) m >>= fun tt => pure (st.toList ++ tt))
      (S.Recovers ss) fun _ => False := by
  rintro c ⟨⟨_ | ⟨x, xs⟩, h⟩, hlen⟩
  · have hadvance : c.advance = ⟨S.behind, .endAt S.finish, c.errors⟩ := by
      rw [Cursor.advance, h.tokens, h.last]
      rfl
    have hread := hss c.errors (by simpa [Cursor.unread, h.tokens] using hlen)
    show Ends _ _ ((statements (expr N) (· == .endOfInput) m >>= _).run c.advance)
    rw [hadvance, run_bind_some hread]
    exact ⟨List.suffix_append _ _, h.errors⟩
  · have hlen' : c.advance.unread ≤ m := by
      rw [Cursor.unread_advance]
      omega
    refine Triple.bind ih (fun tt => triple_pure fun c hc => ?_) c.advance ⟨⟨xs, h.advance⟩, hlen'⟩
    exact ⟨hc.1.trans (List.suffix_append _ _), hc.2⟩

/-- What is read comes nearer to the semicolon with each turn; behind it stand the statements `ss`. -/
theorem triple_statements {N : Nat} {ss : List Stmt}
    (hss : ∀ es k, S.behind.length ≤ k → k ≤ N →
      Reads S.finish es (statements (expr N) (· == .endOfInput) k) S.behind ss []) (m : Nat) (hm : m ≤ N) :
    Triple (fun c => S.UpTo c ∧ c.unread ≤ m) (statements (expr N) (· == .endOfInput) m) (S.Recovers ss)
      fun _ => False := by
  induction m with
  | zero =>
    rintro c ⟨⟨xs, h⟩, hlen⟩
    simp [Cursor.unread, h.tokens] at hlen
  | succ m ih =>
    refine triple_current fun t => triple_ite (fun hstop => ?_) fun _ => ?_
    · exact triple_false.of_pre fun c h => h.1.1.kind_current_ne.2 (h.2 ▸ beq_iff_eq.1 hstop)
    · have hturn := triple_turn (fun es hk => hss es m hk (by omega)) (ih (by omega))
      exact triple_attempt ((triple_statement N).unread_le.of_pre fun _ h => h.1)
        (fun st => hturn (some st)) (hturn none)

theorem triple_wholeProgram {ss : List Stmt}
    (hss : ∀ N es k, S.behind.length ≤ k → k ≤ N →
      Reads S.finish es (statements (expr N) (· == .endOfInput) k) S.behind ss []) :
    Triple S.UpTo wholeProgram (S.Recovers ss) fun _ => False := by
  intro c hc
  exact triple_statements (hss c.unread) c.unread (Nat.le_refl _) c ⟨hc, Nat.le_refl _⟩

end Seam

/-! ## Texts -/

/-- The tokens of a text with a semicolon in it, if nothing before the semicolon goes on behind it. -/
theorem Token.dropLast_tokenize_append {a : String} (ha : ∀ t ∈ Token.tokenize a, ¬ t.word.Unterminated)
    (b : String) : (Token.tokenize (a ++ ";" ++ b)).dropLast = (Token.tokenize a).dropLast ++
      ⟨.semicolon, ";", ⟨a.utf8ByteSize, a.utf8ByteSize + 1⟩⟩ :: (Reader.mk (a.utf8ByteSize + 1) b.toList).body := by
  rw [tokenize_append_semicolon ha, Reader.tokens_eq_body_append, ← List.cons_append, ← List.append_assoc,
    List.dropLast_concat]

/-- A text without an error does not begin with a semicolon. -/
theorem headKind_ne_of_parse {b : String} (hb : (parse b).errors = []) :
    headKind (Token.tokenize b).dropLast ≠ .semicolon := by
  have hd := (exists_reads_wholeProgram_iff (proper_dropLast_tokenize b)).1 ⟨_, _, reads_of_parse hb⟩
  rcases derives_statements.1 hd with hnil | ⟨mid, hst, -⟩
  · rw [hnil]
    decide
  · exact headKind_ne_of_startsStatement (startsStatement_of_derives hst) rfl

/-- The seam between a text and another one without an error. -/
theorem exists_seam {a b : String} (ha : ∀ t ∈ Token.tokenize a, t.kind ≠ .leftBrace ∧ ¬ t.word.Unterminated)
    (hb : (parse b).errors = []) : ∃ S : Seam, S.semicolon.span.stop = a.utf8ByteSize + 1 ∧
      (Token.tokenize b).dropLast.map Token.word = S.behind.map Token.word ∧
      S.At (Token.tokenize a).dropLast (Cursor.ofSource (a ++ ";" ++ b)) := by
  have htokens := Token.dropLast_tokenize_append (fun t ht => (ha t ht).2) b
  generalize hB : (Token.Reader.mk (a.utf8ByteSize + 1) b.toList).body = B at htokens
  have hwords : (Token.tokenize b).dropLast.map Token.word = B.map Token.word := by
    rw [Token.map_word_tokenize, ← hB, Token.Reader.map_word_body]
  have hhead : headKind B ≠ .semicolon := by
    have hbeside : Beside [] [] ((Token.tokenize b).dropLast ++ []) (B ++ []) := beside_of_map_word hwords
    rw [List.append_nil, List.append_nil] at hbeside
    rw [← hbeside.headKind_eq rfl]
    exact headKind_ne_of_parse hb
  refine ⟨⟨⟨.semicolon, ";", ⟨a.utf8ByteSize, a.utf8ByteSize + 1⟩⟩, rfl, B, hhead,
    (Token.Reader.ofString (a ++ ";" ++ b)).finish⟩, rfl, hwords, ?_⟩
  rw [Cursor.ofSource_eq, htokens]
  refine ⟨rfl, rfl, fun t ht => ⟨(ha t (List.dropLast_subset _ ht)).1, proper_dropLast_tokenize a t ht⟩,
    fun t ht => ?_, by simp⟩
  have hstop : t.span.stop ≤ 0 + Text.byteLength a.toList := Token.Reader.stop_le_of_mem_body t ht
  rw [Text.byteLength_toList] at hstop
  show t.span.stop ≤ a.utf8ByteSize + 1
  omega

/-- Reading recovers at a semicolon. Let `a` be any text that opens no brace and leaves no string open, and
let `b` be free of errors. The statements of `a;b` end with those of `b`, and every error lies before the end
of the semicolon. -/
theorem parse_recovers_at_semicolon {a b : String}
    (ha : ∀ t ∈ Token.tokenize a, t.kind ≠ .leftBrace ∧ ¬ t.word.Unterminated) (hb : (parse b).errors = []) :
    (parse b).program.statements <:+ (parse (a ++ ";" ++ b)).program.statements ∧
      ∀ e ∈ (parse (a ++ ";" ++ b)).errors, e.span.stop ≤ a.utf8ByteSize + 1 := by
  obtain ⟨S, hstop, hwords, hat⟩ := exists_seam ha hb
  have hend := S.triple_wholeProgram
    (fun N es k hk hN => reads_statements_of_words hwords (reads_of_parse hb) hk hN) _ ⟨_, hat⟩
  have hparse : parse (a ++ ";" ++ b) =
      let x := wholeProgram.run (Cursor.ofSource (a ++ ";" ++ b))
      ⟨⟨x.1.getD []⟩, x.2.errors⟩ := rfl
  rw [hparse, ← hstop]
  generalize wholeProgram.run (Cursor.ofSource (a ++ ";" ++ b)) = x at hend
  obtain ⟨_ | tt, c⟩ := x
  · exact hend.elim
  · exact hend

/-- The semicolon ends a list that was never closed, after a return without a value. -/
theorem parse_recovers_at_semicolon_unclosed :
    let a := "return ; let x = [1 + , 2"
    let b := "let y = 2; y"
    (∀ t ∈ Token.tokenize a, t.kind ≠ .leftBrace ∧ ¬ t.word.Unterminated) ∧ (parse b).errors = [] ∧
      (parse (a ++ ";" ++ b)).errors.length = 2 ∧
      [.bind "y" (.int 2), .expr (.ident "y")] <:+ (parse (a ++ ";" ++ b)).program.statements ∧
      ∀ e ∈ (parse (a ++ ";" ++ b)).errors, e.span.stop ≤ 26 := by
  intro a b
  have ha : ∀ t ∈ Token.tokenize a, t.kind ≠ .leftBrace ∧ ¬ t.word.Unterminated := by decide +kernel
  have hb : (parse b).errors = [] := by decide +kernel
  have hcount : (parse (a ++ ";" ++ b)).errors.length = 2 := by decide +kernel
  have hstatements : (parse b).program.statements = [.bind "y" (.int 2), .expr (.ident "y")] := by decide +kernel
  have hsize : a.utf8ByteSize = 25 := by decide +kernel
  have h := parse_recovers_at_semicolon ha hb
  rw [hstatements, hsize] at h
  exact ⟨ha, hb, hcount, h⟩

end MonkeyLang
