/-
Reading comes to an end on every text (`parse_terminates`). A goal of the unbounded grammar enters only goals of less
weight (`Enters.weight_lt`): so whatever begins inside an expression has fewer tokens left than the expression, and so
has every further turn of a loop. Hence the goals unfolded as often as the tokens allow for give what the bounded rules
give, whatever stands where unfolding stops (`answers_iterate`).
-/
import MonkeyLang.Proofs.Parse.Acceptance
import MonkeyLang.Proofs.Parse.Unbounded
import Mathlib.Logic.Function.Iterate
import Mathlib.Logic.Relation

namespace MonkeyLang

/-- The token for the end comes behind all others, and is none of them. -/
structure Cursor.Closed (c : Cursor) : Prop where
  last : c.last.kind = .endOfInput
  tokens : ∀ t ∈ c.tokens, t.kind ≠ .endOfInput

theorem Cursor.closed_ofSource (source : String) : (Cursor.ofSource source).Closed := by
  rw [ofSource_eq]
  exact ⟨rfl, proper_dropLast_tokenize source⟩

namespace Parser

/-! ## Unfolding -/

theorem answers_unfold {r : Readers} {w : Nat} (hr : Answers r w) : Answers r.unfold (w + 1) := by
  intro t q u hq hw
  cases hq with
  | program hn hm =>
    simp only [Goal.weight] at hw
    refine hr.turn (· == .endOfInput) rfl hn hm (by omega) fun v k hv hk => ?_
    exact hr (.program (by omega) hk) (by simp only [Goal.weight]; omega)
  | block hn hm =>
    simp only [Goal.weight] at hw
    refine hr.turn endsBlock rfl hn hm (by omega) fun v k hv hk => ?_
    exact hr (.block (by omega) hk) (by simp only [Goal.weight]; omega)
  | statement hn => exact alike_statement (hr.expr hn (by simp only [Goal.weight] at hw; omega))
  | @expr n p hn =>
    simp only [Goal.weight] at hw
    cases n with
    | zero =>
      obtain rfl : u = 0 := by omega
      have hnone := (hr.operand (n := 0) (Nat.zero_le _) (by omega)).trans (alike_operand_zero _)
      exact hnone.bind_noOperand
    | succ n =>
      refine (hr.operand hn (by omega)).bind fun left => ?_
      intro c hc hcu
      exact hr (.climb p left (by omega) (Nat.le_refl _)) (by simp only [Goal.weight]; omega) c hc (Nat.le_refl _)
  | climb p left hn hm => exact hr.climb p left hn hm (by simp only [Goal.weight] at hw; omega)
  | pairs hn hm => exact hr.pairs hn hm (by simp only [Goal.weight] at hw; omega)
  | @moreExprs n m hn hm =>
    simp only [Goal.weight] at hw
    refine alike_more hm (fun hu => alike_nextExpr (hr.expr (by omega) (by omega))) fun v k hv hk => ?_
    exact hr (.moreExprs (by omega) hk) (by simp only [Goal.weight]; omega)
  | moreParams hm =>
    simp only [Goal.weight] at hw
    exact alike_more hm (fun _ => .refl _) fun v k hv hk => hr (.moreParams hk) (by simp only [Goal.weight]; omega)

/-- Whatever stands where unfolding stops: goals of less weight than the number of times have been answered by then. -/
theorem answers_iterate (r : Readers) (n : Nat) : Answers (Readers.unfold^[n] r) n := by
  induction n with
  | zero => exact fun t q u _ hw => absurd hw (Nat.not_lt_zero _)
  | succ n ih =>
    rw [Function.iterate_succ_apply']
    exact answers_unfold ih

/-- So the bounds make no difference once they are enough. -/
theorem answers_bounded (w : Nat) : Answers bounded w := by
  intro t q u hq hw c hc hu
  obtain ⟨q', hq', hrun⟩ := exists_suffices t c
  have hwc : t.weight c.unread < w := Nat.lt_of_le_of_lt (t.weight_mono hu) hw
  have hall := answers_iterate bounded w
  rw [hrun, ← hall hq' hwc c hc (Nat.le_refl _), hall hq hw c hc hu]

/-! ## Entering goals -/

/-- To answer the first goal there, the second one has to be answered where it stands: another answer to it, which
may be anything, makes for another answer. -/
def Enters (x y : Goal × Cursor) : Prop :=
  ∃ r : Readers, (∀ t c, (t, c) ≠ y → (r t).run c = (bounded t).run c) ∧
    (r.unfold x.1).run x.2 ≠ (bounded x.1).run x.2

variable {x y : Goal × Cursor}

theorem Enters.weight_lt (h : Enters x y) (hx : x.2.last.kind = .endOfInput) :
    y.2.last.kind = .endOfInput ∧ y.1.weight y.2.unread < x.1.weight x.2.unread := by
  obtain ⟨r, hr, hne⟩ := h
  by_contra hy
  -- then the answers to all goals of less weight are those of the rules, and so is the answer to this one
  have hanswers : Answers r (x.1.weight x.2.unread) := by
    intro t q u hq hw c hc hu
    have hwc := Nat.lt_of_le_of_lt (t.weight_mono hu) hw
    rw [hr t c fun e => hy (e ▸ ⟨hc, hwc⟩)]
    exact answers_bounded _ hq hw c hc hu
  obtain ⟨q, hq, hrun⟩ := exists_suffices x.1 x.2
  rw [hrun] at hne
  exact hne (answers_unfold hanswers hq (Nat.lt_succ_self _) x.2 hx (Nat.le_refl _))

theorem weight_lt_of_transGen (h : Relation.TransGen Enters x y) (hx : x.2.last.kind = .endOfInput) :
    y.2.last.kind = .endOfInput ∧ y.1.weight y.2.unread < x.1.weight x.2.unread := by
  induction h with
  | single h => exact h.weight_lt hx
  | tail _ h ih =>
    obtain ⟨hlast, hlt⟩ := ih
    obtain ⟨hlast', hlt'⟩ := h.weight_lt hlast
    exact ⟨hlast', Nat.lt_trans hlt' hlt⟩

theorem lawful_bounded (t : Goal) : Lawful (bounded t) := by
  cases t <;> simp only [bounded] <;> infer_instance

/-- A goal is entered if giving up on it, in whatever way, is all that comes of the first goal. -/
theorem enters_of_run (h : ∀ (r : Readers) (e : Cursor), (∀ t d, (t, d) ≠ y → (r t).run d = (bounded t).run d) →
    (r y.1).run y.2 = (none, e) → (r.unfold x.1).run x.2 = (none, e)) : Enters x y := by
  classical
  -- an answer that forgets the token for the end, which no rule does
  let last : Token := { x.2.last with literal := x.2.last.literal ++ "!" }
  let r : Readers := fun t d => if (t, d) = y then (none, ⟨[], last, []⟩) else bounded t d
  have hothers : ∀ t d, (t, d) ≠ y → (r t).run d = (bounded t).run d := fun t d hne => if_neg hne
  refine ⟨r, hothers, fun heq => ?_⟩
  have hlast : ((r.unfold x.1).run x.2).2.last = x.2.last := by
    rw [heq]
    exact (lawful_bounded x.1).last_eq x.2
  rw [h r _ hothers (if_pos rfl)] at hlast
  have hlen := congrArg (fun t => t.literal.length) hlast
  simp [last] at hlen

/-- What an operator stands in front of is entered. -/
theorem enters_of_bang (p : Precedence) {c : Cursor} (hk : c.current.kind = .bang) :
    Enters (.expr p, c) (.expr .unary, c.advance) := by
  refine enters_of_run fun r e _ hasked => ?_
  have hoperand : r.operand.run c = (unary r.expr .not).run c := by
    rw [Readers.operand, run_bind_some (show current.run c = (some c.current, c) from rfl)]
    simp only [hk]
  have hunary : (unary r.expr .not).run c = (none, e) := run_bind_none hasked _
  exact run_bind_none (hoperand.trans hunary) _

/-- Behind a statement of a program, read or not, the loop goes on. -/
theorem enters_of_statement {c : Cursor} (hk : c.current.kind ≠ .endOfInput) :
    Enters (.program, c) (.program, ((bounded .statement).run c).2.advance) := by
  refine enters_of_run fun r e hothers hasked => ?_
  have hstatement : (r .statement).run c = (bounded .statement).run c := hothers _ _ nofun
  have hturn : (r.unfold .program).run c = (attempt (r .statement) >>= fun s => advance >>= fun _ =>
      r .program >>= fun ss => pure (s.toList ++ ss)).run c := by
    show Parser.run (if (c.current.kind == .endOfInput) = true then _ else _) c = _
    rw [if_neg (by simpa using hk)]
  rw [hturn]
  show (r .program >>= fun ss => pure (((r .statement).run c).1.toList ++ ss)).run ((r .statement).run c).2.advance = _
  rw [hstatement]
  exact run_bind_none hasked _

/-- Behind a comma that follows a pair, the loop over pairs goes on. -/
theorem enters_of_comma {c d : Cursor} {q : Expr × Expr} (hk : c.peek.kind ≠ .rightBrace)
    (hq : (pair (Readers.expr bounded)).run c = (some q, d)) (hd : d.peek.kind = .comma) :
    Enters (.pairs, c) (.pairs, d.advance) := by
  refine enters_of_run fun r e hothers hasked => ?_
  have hexpr : r.expr = Readers.expr bounded := by
    funext p c
    exact hothers (.expr p) c nofun
  rw [← hexpr] at hq
  have hrest : (expect .comma >>= fun _ => r .pairs >>= fun qs => pure (q :: qs)).run d = (none, e) := by
    rw [run_bind_some (show (expect .comma).run d = (some (), d.advance) from if_pos hd)]
    exact run_bind_none hasked _
  show Parser.run (if (c.peek.kind == .rightBrace) = true then _ else _) c = _
  rw [if_neg (by simpa using hk), run_bind_some hq]
  show Parser.run (if (!(d.peek.kind == .rightBrace)) = true then _ else _) d = _
  rw [if_pos (by rw [hd]; rfl)]
  exact hrest

end Parser

theorem Token.length_tokenize (source : String) :
    (Token.tokenize source).length = (Cursor.ofSource source).unread + 1 := by
  rw [Cursor.unread, Cursor.ofSource_eq, Token.tokenize, Token.Reader.tokens_eq_body_append]
  simp

open MonkeyLang.Parser in
/-- Inside of an expression, further expressions and statements begin with fewer tokens left than the expression; so
does every further turn of a loop. The unbounded grammar, unfolded in proportion to the number of tokens, reads a text
as `parse` does up to the token for the end, whatever stands where unfolding stops, and larger bounds change nothing. -/
theorem parse_terminates (source : String) :
    (∀ (p : Precedence) (t : Goal) (c d : Cursor), c.Closed → Relation.TransGen Enters (.expr p, c) (t, d) →
      t.IsPhrase → d.unread < c.unread) ∧
    (∀ (t t' : Goal) (c d : Cursor), c.Closed → Relation.TransGen Enters (t, c) (t', d) →
      t.Repeats t' → d.unread < c.unread) ∧
    ∃ c, c.errors = (parse source).errors ∧ c.current.kind = .endOfInput ∧
      (∀ (r : Readers) (n : Nat), 4 * (Token.tokenize source).length ≤ n →
        ((Readers.unfold^[n] r) .program).run (.ofSource source) = (some (parse source).program.statements, c)) ∧
      ∀ n m : Nat, (Token.tokenize source).length ≤ n → (Token.tokenize source).length ≤ m →
        (statements (expr n) (· == .endOfInput) m).run (.ofSource source) =
          (some (parse source).program.statements, c) := by
  refine ⟨fun p t c d hc h ht => ?_, fun t t' c d hc h ht => ?_, ?_⟩
  · exact Goal.lt_of_weight_lt_of_isPhrase ht (weight_lt_of_transGen h hc.last).2
  · exact Goal.lt_of_weight_lt_of_repeats ht (weight_lt_of_transGen h hc.last).2
  obtain ⟨c, hrun, herrors, hend⟩ := exists_run_wholeProgram source
  have hlast := (Cursor.closed_ofSource source).last
  have hlength := Token.length_tokenize source
  refine ⟨c, herrors, hend, fun r n hn => ?_, fun n m hn hm => ?_⟩
  · obtain ⟨q, hq, hq'⟩ := exists_suffices .program (.ofSource source)
    have hanswer := answers_iterate r n hq (by simp only [Goal.weight]; omega) _ hlast (Nat.le_refl _)
    exact hanswer.trans (hq'.symm.trans hrun)
  · have hanswer := answers_bounded _ (.program (n := n) (m := m) (by omega) (by omega)) (Nat.lt_succ_self _) _ hlast
      (Nat.le_refl _)
    exact hanswer.symm.trans hrun

open MonkeyLang.Parser in
/-- An expression inside of another one, a further turn over statements, and one over pairs. -/
theorem parse_terminates_negated :
    (Enters (.expr .lowest, .ofSource "!a") (.expr .unary, (Cursor.ofSource "!a").advance) ∧
      (Cursor.ofSource "!a").advance.unread < (Cursor.ofSource "!a").unread) ∧
    (let c := Cursor.ofSource "a; b"
      let d := ((bounded .statement).run c).2.advance
      Enters (.program, c) (.program, d) ∧ d.unread < c.unread) ∧
    (let c := Cursor.ofSource "\x7b1: 2, 3: 4\x7d"
      let d := ((pair (Readers.expr bounded)).run c).2.advance
      Enters (.pairs, c) (.pairs, d) ∧ d.unread < c.unread) := by
  refine ⟨?_, ?_, ?_⟩
  · have hkind : (Cursor.ofSource "!a").current.kind = .bang := by decide +kernel
    have h := enters_of_bang .lowest hkind
    exact ⟨h, (parse_terminates "!a").1 .lowest _ _ _ (Cursor.closed_ofSource "!a") (.single h) trivial⟩
  · intro c d
    have hkind : c.current.kind ≠ .endOfInput := by decide +kernel
    have h := enters_of_statement hkind
    exact ⟨h, (parse_terminates "a; b").2.1 _ _ _ _ (Cursor.closed_ofSource _) (.single h) trivial⟩
  · intro c d
    have hkind : c.peek.kind ≠ .rightBrace := by decide +kernel
    have hpair : ((pair (Readers.expr bounded)).run c).1 = some (.int 1, .int 2) := by decide +kernel
    have hcomma : ((pair (Readers.expr bounded)).run c).2.peek.kind = .comma := by decide +kernel
    have h := enters_of_comma hkind (Prod.ext hpair rfl) hcomma
    exact ⟨h, (parse_terminates "\x7b1: 2, 3: 4\x7d").2.1 _ _ _ _ (Cursor.closed_ofSource _) (.single h) trivial⟩

end MonkeyLang
