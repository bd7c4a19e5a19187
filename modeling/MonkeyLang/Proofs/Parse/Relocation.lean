/-
The places of tokens. A rule of the grammar looks at the kind and the literal of a token, and at its place only
to say where an error is. So moving the tokens of a text to other places, in whatever way, moves its errors along
and changes nothing else (`Recipe.moves`). In particular texts with the same words are read as the same program, with
the same errors but for their places (`parse_eq_of_words`).
-/
import MonkeyLang.Proofs.Parse.Acceptance
import MonkeyLang.Proofs.Parse.Recipe
import MonkeyLang.Proofs.Token.Word

namespace MonkeyLang

/-! ## Moving -/

def Token.relocate (f : Span → Span) (t : Token) : Token := { t with span := f t.span }

def ParseError.relocate (f : Span → Span) (e : ParseError) : ParseError := { e with span := f e.span }

/-- The cursor with every token and every error moved to another place. -/
def Cursor.relocate (f : Span → Span) (c : Cursor) : Cursor :=
  ⟨c.tokens.map (Token.relocate f), c.last.relocate f, c.errors.map (ParseError.relocate f)⟩

namespace Cursor

variable (f : Span → Span) (c : Cursor)

theorem current_relocate : (c.relocate f).current = c.current.relocate f := by
  unfold current relocate
  cases c.tokens <;> rfl

theorem peek_relocate : (c.relocate f).peek = c.peek.relocate f := by
  unfold peek relocate
  rcases c.tokens with _ | ⟨t, _ | ⟨u, ts⟩⟩ <;> rfl

theorem advance_relocate : (c.relocate f).advance = c.advance.relocate f := by
  simp only [advance, relocate, List.map_tail]

theorem unread_relocate : (c.relocate f).unread = c.unread := List.length_map _

theorem report_relocate (cause : ParseError.Cause) (t : Token) :
    (c.relocate f).report cause (t.relocate f) = (c.report cause t).relocate f := by
  simp only [report, relocate, List.map_append]
  rfl

end Cursor

namespace Parser

/-! ## Steps -/

section Steps

variable {α β : Type} {p : Parser α} (f : Span → Span) {c : Cursor}

/-- From where the cursor is, the run with everything moved is the run itself, moved. -/
def Moves (p : Parser α) (f : Span → Span) (c : Cursor) : Prop :=
  p.run (c.relocate f) = (p.run c).map id (Cursor.relocate f)

theorem moves_bind {q : α → Parser β} (hp : p.Moves f c) (hq : ∀ a d, p.run c = (some a, d) → (q a).Moves f d) :
    (p >>= q).Moves f c := by
  rw [Moves, run_bind, run_bind, hp]
  generalize p.run c = x at hq
  obtain ⟨_ | a, d⟩ := x
  · rfl
  · exact hq a d rfl

theorem moves_attempt {q : Option α → Parser β} (hp : p.Moves f c) (hq : ∀ o d, (q o).Moves f d) :
    (attempt p >>= q).Moves f c := by
  show (q (p.run (c.relocate f)).1).run (p.run (c.relocate f)).2 = _
  rw [hp]
  exact hq _ _

/-- What goes on with the current token must not look at its place. -/
theorem moves_current {q : Token → Parser α} (h : ∀ s, q { c.current with span := s } = q c.current)
    (hq : (q c.current).Moves f c) : (current >>= q).Moves f c := by
  show (q (c.relocate f).current).run (c.relocate f) = _
  rw [Cursor.current_relocate, Token.relocate, h]
  exact hq

theorem moves_peek {q : Token → Parser α} (h : ∀ s, q { c.peek with span := s } = q c.peek)
    (hq : (q c.peek).Moves f c) : (peek >>= q).Moves f c := by
  show (q (c.relocate f).peek).run (c.relocate f) = _
  rw [Cursor.peek_relocate, Token.relocate, h]
  exact hq

theorem moves_unread {q : Nat → Parser α} (hq : (q c.unread).Moves f c) : (unread >>= q).Moves f c := by
  show (q (c.relocate f).unread).run (c.relocate f) = _
  rw [Cursor.unread_relocate]
  exact hq

theorem moves_advance {q : Unit → Parser α} (hq : (q ()).Moves f c.advance) : (advance >>= q).Moves f c := by
  show (q ()).run (c.relocate f).advance = _
  rw [Cursor.advance_relocate]
  exact hq

theorem moves_expect (k : Token.Kind) : (expect k).Moves f c := by
  simp only [Moves, run, expect, Cursor.peek_relocate, Cursor.advance_relocate, Cursor.report_relocate]
  split
  · next h => rw [if_pos (show c.peek.kind = k from h)]; rfl
  · next h => rw [if_neg (show ¬ c.peek.kind = k from h)]; rfl

/-- A cause may name the kind and the literal of a token, but not its place. -/
theorem moves_fail {cause : Token → ParseError.Cause} (h : ∀ t, cause (t.relocate f) = cause t) :
    (fail cause : Parser α).Moves f c := by
  simp only [Moves, run, fail, Cursor.current_relocate, h, Cursor.report_relocate]
  rfl

theorem moves_skipSemicolon : skipSemicolon.Moves f c := by
  show ((peek >>= fun t => if (t.kind == .semicolon) = true then advance else pure ()) : Parser Unit).Moves f c
  refine moves_peek f (fun _ => rfl) ?_
  split
  · exact moves_advance f (q := pure) rfl
  · rfl

end Steps

/-- The places of the tokens play no part in what is read. -/
theorem Recipe.moves {x : Place} {had : List Leaf} {α : Type} {p : Parser α} {N : α → List Leaf} {y : Stage}
    (r : Recipe x had p N y) (f : Span → Span) {c : Cursor} (hc : x.Fits c) : p.Moves f c := by
  induction r generalizing c with
  | pure h => rfl
  | seq r s ih ih' => exact moves_bind f (ih hc) fun a d _ => ih' a trivial
  | keep r ih => exact ih hc
  | forget h r ih => exact ih hc
  | weaken h r ih => exact ih trivial
  | see r ih => exact ih c.current rfl
  | foresee r ih => exact ih c.peek rfl
  | unsee r ih => exact ih trivial
  | begun h r ih => exact ih trivial
  | @current _ _ _ _ _ t h r ih =>
    obtain rfl : c.current = t := hc
    exact moves_current f h (ih rfl)
  | @peek _ _ _ _ _ t h r ih =>
    obtain rfl : c.peek = t := hc
    exact moves_peek f h (ih rfl)
  | @nextIs _ k q _ _ _ t r ih =>
    obtain rfl : c.peek = t := hc
    exact moves_peek f (q := fun t => q (t.kind == k)) (fun _ => rfl) (ih rfl)
  | unread r ih => exact moves_unread f (ih c.unread hc)
  | @advance _ _ _ _ _ t r ih =>
    obtain rfl : c.peek = t := hc
    exact moves_advance f (ih rfl)
  | @expect _ k _ _ _ _ r ih =>
    refine moves_bind f (moves_expect f k) fun _ d hd => ?_
    obtain ⟨hk, rfl⟩ := run_expect_eq_some hd
    exact ih c.peek hk rfl
  | noOperand => exact moves_fail f fun _ => rfl
  | tooLarge hk hn => exact moves_fail f fun _ => rfl
  | skip => exact moves_skipSemicolon f
  | value r s s' ih ih₁ ih₂ =>
    refine moves_attempt f (ih hc) fun o d => ?_
    cases o with
    | none => exact ih₂ trivial
    | some a => exact ih₁ a trivial
  | enter hk r ih => exact moves_advance f (ih trivial)
  | look h r ih => exact moves_current f (h c.current) (ih c.current hc)
  | turn r s s' ih ih₁ ih₂ =>
    refine moves_attempt f (ih trivial) fun o d => moves_advance f ?_
    cases o with
    | none => exact ih₂ trivial
    | some a => exact ih₁ a trivial

end Parser

/-! ## Texts with the same words -/

theorem Token.map_relocate_eq_of_words {ts us : List Token} (h : ts.map word = us.map word) (place : Span) :
    ts.map (relocate fun _ => place) = us.map (relocate fun _ => place) := by
  have hmap := congrArg (List.map fun w : Word => (⟨w.kind, w.literal, place⟩ : Token)) h
  rw [List.map_map, List.map_map] at hmap
  exact hmap

theorem Cursor.relocate_ofSource_eq_of_words {s s' : String}
    (h : (Token.tokenize s).map Token.word = (Token.tokenize s').map Token.word) (place : Span) :
    (ofSource s).relocate (fun _ => place) = (ofSource s').relocate fun _ => place := by
  have hmap := Token.map_relocate_eq_of_words h place
  rw [← ahead_ofSource, ← ahead_ofSource, List.map_append, List.map_append] at hmap
  obtain ⟨htokens, hlast⟩ := List.append_inj' hmap rfl
  simp only [relocate, htokens, (List.cons.inj hlast).1]
  rfl

/-- Moved to one and the same place, the tokens of the two texts cannot be told apart. -/
theorem parse_eq_of_words {s s' : String}
    (h : (Token.tokenize s).map Token.word = (Token.tokenize s').map Token.word) :
    (parse s).program = (parse s').program ∧
      (parse s).errors.map ParseError.cause = (parse s').errors.map ParseError.cause := by
  have hmoves (s : String) : Parser.wholeProgram.Moves (fun _ => .point 0) (.ofSource s) :=
    Parser.Recipe.wholeProgram.moves _ trivial
  have hrun : (Parser.wholeProgram.run (Cursor.ofSource s)).map id (Cursor.relocate fun _ => .point 0) =
      (Parser.wholeProgram.run (Cursor.ofSource s')).map id (Cursor.relocate fun _ => .point 0) := by
    rw [← hmoves s, ← hmoves s', Cursor.relocate_ofSource_eq_of_words h]
  constructor
  · exact congrArg (fun x => (⟨x.1.getD []⟩ : Program)) hrun
  · have herrors := congrArg (fun x => x.2.errors.map ParseError.cause) hrun
    simp only [Prod.map_snd, Cursor.relocate, List.map_map] at herrors
    exact herrors

end MonkeyLang
