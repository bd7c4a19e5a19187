/-
Facts about cursors that go with the steps of the grammar. A rule that can read what it should comes to the end of its
recipe; one that cannot records a single error, at the current token or at the next one, and is stuck, and nothing is
reported again before the cursor has moved on. `Discipline` is what a fact for each stage must satisfy to go with this,
step by step; such a fact then holds through every rule that there is a recipe for (`Recipe.triple`), however deep the
errors come up and wherever reading is taken up again.
-/
import MonkeyLang.Proofs.Parse.Recipe
import MonkeyLang.Proofs.Parse.Triple

namespace MonkeyLang.Parser

/-- A fact for each stage about the cursor there, after the leaves `ls` have been read. -/
structure Discipline where
  holds : Stage → List Leaf → Cursor → Prop
  within : ∀ {x y ls c}, x.Within y → holds x ls c → holds y ls c
  forget : ∀ {x ls ls' c}, ls'.Subperm ls → holds x ls c → holds x ls' c
  begun : ∀ {ls c}, holds .start ls c → c.current.kind ≠ .semicolon → holds .inside ls c
  leaf : ∀ {ls c}, holds .start ls c → holds .start (c.current.leaves ++ ls) c
  advance : ∀ {ls c}, holds .inside ls c → holds .start ls c.advance
  enter : ∀ {ls c}, holds .start ls c → c.current.kind = .leftBrace → holds .turn ls c.advance
  skip : ∀ {ls c}, holds .settled ls c → c.peek.kind = .semicolon → holds .settled ls c.advance
  again : ∀ {ls ls' c c'}, holds .turn ls c → holds .settled ls' c' → holds .turn ls' c'.advance
  expected : ∀ {ls c} k, holds .inside ls c → holds .stuck ls (c.report (.expected k c.peek.kind) c.peek)
  noOperand : ∀ {ls c}, holds .start ls c → holds .stuck ls (c.report (.noOperand c.current.kind) c.current)
  tooLarge : ∀ {ls c}, holds .start ls c → c.current.kind = .int →
    ¬ Text.numeral c.current.literal.toList < Text.integerLimit →
    holds .stuck ls (c.report (.integerTooLarge c.current.literal) c.current)
  lapse : ∀ {ls c}, holds .stuck ls c → holds .stuck (.bareReturn :: ls) c

namespace Discipline

variable {D : Discipline} {x : Place} {y : Stage} {had ls : List Leaf} {c : Cursor} {α : Type} {p : Parser α}
  {N : α → List Leaf}

/-- The fact for the stage, and the token in view is the right one. -/
def At (D : Discipline) (x : Place) (ls : List Leaf) (c : Cursor) : Prop := D.holds x.stage ls c ∧ x.Fits c

theorem forget_append (h : D.holds y (had ++ ls) c) : D.holds y ls c :=
  D.forget (List.sublist_append_right had ls).subperm h

end Discipline

/-- By induction on the steps. Leaves that are not at hand stay as they are. -/
theorem Recipe.triple (D : Discipline) {x : Place} {had : List Leaf} {α : Type} {p : Parser α} {N : α → List Leaf}
    {y : Stage} (r : Recipe x had p N y) (ls : List Leaf) :
    Triple (D.At x (had ++ ls)) p (fun a => D.holds y (N a ++ ls)) (D.holds .stuck ls) := by
  induction r generalizing ls with
  | pure h => exact triple_pure fun c hc => D.forget ((List.subperm_append_right ls).2 h) hc.1
  | seq r s ih ih' => exact (ih ls).bind fun a => (ih' a ls).of_pre fun c hc => ⟨hc, trivial⟩
  | @keep _ _ _ _ _ had r ih =>
    refine (ih (had ++ ls)).weaken (fun _ hc => hc) (fun a c hc => ?_) fun c hc => D.forget_append hc
    rwa [List.append_assoc]
  | forget h r ih => exact (ih ls).of_pre fun c hc => ⟨D.forget ((List.subperm_append_right ls).2 h) hc.1, hc.2⟩
  | weaken h r ih => exact (ih ls).of_pre fun c hc => ⟨D.within h hc.1, trivial⟩
  | see r ih => exact fun c hc => ih c.current ls c ⟨hc.1, rfl⟩
  | foresee r ih => exact fun c hc => ih c.peek ls c ⟨hc.1, rfl⟩
  | unsee r ih => exact (ih ls).of_pre fun c hc => ⟨hc.1, trivial⟩
  | begun h r ih =>
    refine (ih ls).of_pre ?_
    rintro c ⟨hc, rfl⟩
    exact ⟨D.begun hc h, trivial⟩
  | current h r ih =>
    rintro c ⟨hc, rfl⟩
    refine ih ls c ⟨?_, rfl⟩
    rw [List.append_assoc]
    exact D.leaf hc
  | peek h r ih =>
    rintro c ⟨hc, rfl⟩
    exact ih ls c ⟨hc, rfl⟩
  | nextIs r ih =>
    rintro c ⟨hc, rfl⟩
    exact ih ls c ⟨hc, rfl⟩
  | unread r ih => exact triple_unread fun n => ih n ls
  | advance r ih =>
    rintro c ⟨hc, rfl⟩
    exact ih ls c.advance ⟨D.advance hc, rfl⟩
  | @expect _ k _ _ _ had r ih =>
    refine Triple.bind (Q := fun _ c => D.holds .start (had ++ ls) c ∧ c.current.kind = k) ?_ fun _ c hc => ?_
    · exact triple_expect (fun c hc hk => ⟨D.advance hc.1, hk⟩) fun c hc => D.forget_append (D.expected _ hc.1)
    · exact ih c.current hc.2 ls c ⟨hc.1, rfl⟩
  | noOperand => exact triple_fail fun c hc => D.forget_append (D.noOperand hc.1)
  | tooLarge hk hn =>
    refine triple_fail ?_
    rintro c ⟨hc, rfl⟩
    exact D.forget_append (D.tooLarge hc hk hn)
  | skip => exact triple_nextIs (fun c hc => D.skip hc.1.1 hc.2) (triple_pure fun c hc => hc.1.1)
  | @value _ _ _ _ _ _ _ _ had r s s' ih ih₁ ih₂ =>
    refine triple_attempt (ih (had ++ ls)) (fun a => (ih₁ a ls).of_pre fun c hc => ⟨?_, trivial⟩)
      ((ih₂ ls).of_pre fun c hc => ⟨D.lapse hc, trivial⟩)
    rwa [List.append_assoc]
  | enter hk r ih =>
    rintro c ⟨hc, rfl⟩
    exact ih ls c.advance ⟨D.enter hc hk, trivial⟩
  | look h r ih => exact fun c hc => ih c.current ls c hc
  | @turn _ _ _ _ _ _ _ had r s s' ih ih₁ ih₂ =>
    intro c hc
    have hp : Triple (· = c) _ (fun a => D.holds .settled (_ ++ (had ++ ls))) (D.holds .stuck (had ++ ls)) :=
      fun c' hc' => hc' ▸ ih (had ++ ls) c ⟨D.within .turn_start hc.1, trivial⟩
    refine triple_attempt hp (fun a => ?_) ?_ c rfl
    · refine triple_advance (fun c' hc' => D.again hc.1 hc') ((ih₁ a ls).of_pre fun c' hc' => ⟨?_, trivial⟩)
      rwa [List.append_assoc]
    · exact triple_advance (fun c' hc' => D.again hc.1 (D.within .stuck_settled hc'))
        ((ih₂ ls).of_pre fun c' hc' => ⟨hc', trivial⟩)

end MonkeyLang.Parser
