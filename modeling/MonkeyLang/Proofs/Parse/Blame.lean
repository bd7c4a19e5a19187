/-
What the errors of a text say about its tokens. Each error stands at a token and says what is wrong with that
very token; errors are found from left to right; and a token is to blame twice at most, once as the next token
and once as the current one (`parse_errors_blame`). The token for the end is apart: reading does not move past
it, so each rule that is still open may find it there.

The reason is that the cursor has moved on between two errors. So all errors lie up to the current token, which
has been blamed at most once by then; a rule that gives up adds one error at this token or the next one.
-/
import MonkeyLang.Proofs.Parse.Acceptance
import MonkeyLang.Proofs.Parse.Discipline
import MonkeyLang.Proofs.Token.Partition

namespace MonkeyLang

/-- A message that is right about a token: it is another token than the one that had to come next, no
expression starts with it, or it is a number above the largest 64-bit integer. -/
inductive Token.Faulted (t : Token) : String → Prop
  | expected (wanted : Kind) :
    t.Faulted ("Expected next token to be `" ++ wanted.name ++ "`, got `" ++ t.kind.name ++ "` instead")
  | noOperand : t.Faulted ("No prefix parse function for " ++ t.kind.name ++ " found")
  | tooLarge (hk : t.kind = .int) (hn : 2 ^ 63 - 1 < Text.numeral t.literal.toList) :
    t.Faulted ("Could not parse " ++ t.literal ++ " as integer")

/-- The error stands at the token, and its message is right about it. -/
structure ParseError.Blames (e : ParseError) (t : Token) : Prop where
  span : e.span = t.span
  message : t.Faulted e.message

namespace Cursor

/-- Where the token `k` places ahead begins. -/
def mark (c : Cursor) (k : Nat) : Nat := ((c.tokens.drop k).headD c.last).span.start

/-- The errors of a cursor in a text with the tokens `ts`: they are in order, up to the token `k` places ahead,
which is blamed once at most, and each of the others before the end is blamed twice at most. -/
structure Blaming (ts : List Token) (k : Nat) (c : Cursor) : Prop where
  ahead : c.tokens ++ [c.last] <:+ ts
  ordered : c.errors.Pairwise fun e f => e.span.start ≤ f.span.start
  start_le : ∀ e ∈ c.errors, e.span.start ≤ c.mark k
  blames : ∀ e ∈ c.errors, ∃ t ∈ ts, e.Blames t
  twice : ∀ x : Span, x.start < c.last.span.start → (c.errors.map ParseError.span).count x ≤ 2
  once : ∀ x : Span, x.start < c.last.span.start → c.mark k ≤ x.start → (c.errors.map ParseError.span).count x ≤ 1

theorem mark_one (c : Cursor) : c.mark 1 = c.peek.span.start := by
  rw [mark, peek, List.drop_one]

theorem mark_advance (c : Cursor) (k : Nat) : c.advance.mark k = c.mark (k + 1) := by
  rw [mark, mark, advance, List.drop_tail]

/-- How often errors stand at `x`, after one more at `t`. -/
theorem count_report (c : Cursor) (cause : ParseError.Cause) (t : Token) (x : Span) :
    ((c.report cause t).errors.map ParseError.span).count x =
      (c.errors.map ParseError.span).count x + if t.span = x then 1 else 0 := by
  simp [report, List.count_singleton]

namespace Blaming

variable {ts : List Token} {c : Cursor} {k : Nat} {t : Token}

/-- Nothing further ahead is blamed yet. -/
theorem count_eq_zero (h : c.Blaming ts k) {x : Span} (hx : c.mark k < x.start) :
    (c.errors.map ParseError.span).count x = 0 := by
  refine List.count_eq_zero.2 fun hmem => ?_
  obtain ⟨e, he, rfl⟩ := List.mem_map.1 hmem
  exact Nat.not_lt.2 (h.start_le e he) hx

section

variable (hts : ts.Pairwise fun t u => t.span.start < u.span.start)

include hts

/-- The token after the current one begins behind it, unless both are the token for the end. -/
theorem mark_lt (h : c.Blaming ts k) : c.mark 0 < c.mark 1 ∨ c.mark 0 = c.last.span.start ∧ c.mark 1 = c.mark 0 := by
  have hahead := hts.sublist h.ahead.sublist
  unfold mark
  revert hahead
  rcases c.tokens with _ | ⟨a, _ | ⟨b, us⟩⟩ <;> intro hahead
  · exact .inr ⟨rfl, rfl⟩
  · exact .inl ((List.pairwise_cons.1 hahead).1 c.last (by simp))
  · exact .inl ((List.pairwise_cons.1 hahead).1 b (by simp))

theorem mark_le (h : c.Blaming ts k) : c.mark 0 ≤ c.mark 1 := by
  have hlt := h.mark_lt hts
  omega

theorem stuck_of_ready (h : c.Blaming ts 0) : c.Blaming ts 1 where
  ahead := h.ahead
  ordered := h.ordered
  start_le e he := (h.start_le e he).trans (h.mark_le hts)
  blames := h.blames
  twice := h.twice
  once x hx hle := h.once x hx ((h.mark_le hts).trans hle)

/-- One more error, at the current token or at the next one. -/
theorem report (h : c.Blaming ts 0) {cause : ParseError.Cause} (ht : t ∈ ts) (hlo : c.mark 0 ≤ t.span.start)
    (hhi : t.span.start ≤ c.mark 1) (hm : t.Faulted cause.message) : (c.report cause t).Blaming ts 1 where
  ahead := h.ahead
  ordered := by
    refine List.pairwise_append.2 ⟨h.ordered, List.pairwise_singleton .., fun e he f hf => ?_⟩
    rw [List.mem_singleton.1 hf]
    exact (h.start_le e he).trans hlo
  start_le e he := by
    rcases List.mem_append.1 he with he | he
    · exact (h.stuck_of_ready hts).start_le e he
    · rw [List.mem_singleton.1 he]
      exact hhi
  blames e he := by
    rcases List.mem_append.1 he with he | he
    · exact h.blames e he
    · rw [List.mem_singleton.1 he]
      exact ⟨t, ht, rfl, hm⟩
  twice x hx := by
    have htwice := h.twice x hx
    have honce := h.once x hx
    rw [count_report]
    split
    · next hxt =>
      subst hxt
      have := honce hlo
      omega
    · omega
  once x hx hle := by
    have hmark : c.mark 1 ≤ x.start := hle
    have hlast : x.start < c.last.span.start := hx
    have hlt := h.mark_lt hts
    rw [count_report, h.count_eq_zero (by omega)]
    split <;> omega

theorem report_current (h : c.Blaming ts 0) {cause : ParseError.Cause} (hm : c.current.Faulted cause.message) :
    (c.report cause c.current).Blaming ts 1 :=
  h.report hts (h.ahead.subset c.current_mem) (Nat.le_refl _) (h.mark_le hts) hm

theorem report_peek (h : c.Blaming ts 0) {cause : ParseError.Cause} (hm : c.peek.Faulted cause.message) :
    (c.report cause c.peek).Blaming ts 1 := by
  have hmark := c.mark_one
  exact h.report hts (h.ahead.subset c.peek_mem) (hmark ▸ h.mark_le hts) (Nat.le_of_eq hmark.symm) hm

end

/-- Moving on, the next token becomes the current one. -/
theorem advance (h : c.Blaming ts 1) : c.advance.Blaming ts 0 where
  ahead := c.advance_suffix.trans h.ahead
  ordered := h.ordered
  start_le e he := by
    rw [mark_advance]
    exact h.start_le e he
  blames := h.blames
  twice := h.twice
  once x hx hle := by
    rw [mark_advance] at hle
    exact h.once x hx hle

end Blaming

end Cursor

/-- How many places ahead the last error may lie: where a rule has given up, and behind a statement, it may lie at the
next token. -/
def Parser.Stage.reach : Stage → Nat
  | start | inside | turn => 0
  | settled | stuck => 1

def Parser.Discipline.blaming {ts : List Token} (hts : ts.Pairwise fun t u => t.span.start < u.span.start) :
    Parser.Discipline where
  holds x _ := Cursor.Blaming ts x.reach
  within h hc := by
    cases h with
    | inside_settled => exact hc.stuck_of_ready hts
    | inside_start | stuck_settled | turn_start | turn_inside => exact hc
  forget _ hc := hc
  begun hc _ := hc
  leaf hc := hc
  advance hc := (hc.stuck_of_ready hts).advance
  enter hc _ := (hc.stuck_of_ready hts).advance
  skip hc _ := hc.advance.stuck_of_ready hts
  again _ hc := hc.advance
  expected k hc := hc.report_peek hts (.expected k)
  noOperand hc := hc.report_current hts .noOperand
  tooLarge hc hk hn := hc.report_current hts (.tooLarge hk (Nat.not_lt.1 hn))
  lapse hc := hc

/-! ## From the tokens of a text -/

namespace Token

theorem start_lt_of_mem_body {source : String} {t : Token} (ht : t ∈ (Reader.ofString source).body) :
    t.span.start < (Reader.ofString source).finish :=
  Nat.lt_of_lt_of_le ((lexed_body source).nonempty t ht) (Reader.stop_le_of_mem_body t ht)

/-- No two tokens begin at one place, since none but the last is empty. -/
theorem pairwise_start_tokenize (source : String) :
    (tokenize source).Pairwise fun t u => t.span.start < u.span.start := by
  have hlexed := lexed_body source
  rw [tokenize, Reader.tokens_eq_body_append]
  refine List.pairwise_append.2 ⟨hlexed.ordered.imp_of_mem ?_, List.pairwise_singleton .., ?_⟩
  · intro t u ht _ hle
    exact Nat.lt_of_lt_of_le (hlexed.nonempty t ht) hle
  · intro t ht u hu
    rw [List.mem_singleton.1 hu]
    exact start_lt_of_mem_body ht

end Token

theorem Cursor.blaming_ofSource (source : String) :
    (Cursor.ofSource source).Blaming (Token.tokenize source) 0 where
  ahead := ⟨[], Cursor.ahead_ofSource source⟩
  ordered := .nil
  start_le := by simp [Cursor.ofSource]
  blames := by simp [Cursor.ofSource]
  twice := by simp [Cursor.ofSource]
  once := by simp [Cursor.ofSource]

/-- The errors of a text are in order, each is right about the token that it stands at, and no token before the
end has more than two. -/
theorem parse_errors_blame (source : String) :
    (parse source).errors.Pairwise (fun e f => e.span.start ≤ f.span.start) ∧
      (∀ e ∈ (parse source).errors, ∃ t ∈ Token.tokenize source, e.Blames t) ∧
      ∀ t ∈ Token.tokenize source, t.kind ≠ .endOfInput →
        ((parse source).errors.map ParseError.span).count t.span ≤ 2 := by
  obtain ⟨c, hrun, herrors, -⟩ := Parser.exists_run_wholeProgram source
  have hend := Parser.Recipe.wholeProgram.triple (.blaming (Token.pairwise_start_tokenize source)) [] _
    ⟨Cursor.blaming_ofSource source, trivial⟩
  rw [hrun] at hend
  have hblaming : c.Blaming (Token.tokenize source) 0 := hend
  rw [← herrors]
  refine ⟨hblaming.ordered, hblaming.blames, fun t ht hk => hblaming.twice t.span ?_⟩
  have hlast : (Parser.wholeProgram.run (.ofSource source)).2.last = _ := Parser.Lawful.last_eq _
  rw [hrun] at hlast
  rw [show c.last = _ from hlast, Cursor.ofSource_eq]
  rw [Token.tokenize, Token.Reader.tokens_eq_body_append] at ht
  rcases List.mem_append.1 ht with ht | ht
  · exact Token.start_lt_of_mem_body ht
  · exact absurd (congrArg Token.kind (List.mem_singleton.1 ht)) hk

-- two is not too many: no name is next, and then no expression starts here
example : (parse "let =").errors.map ParseError.message =
    ["Expected next token to be `IDENT`, got `=` instead", "No prefix parse function for = found"] := by
  decide +kernel

end MonkeyLang
