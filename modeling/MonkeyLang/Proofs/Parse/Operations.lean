/-
Sequences of operations seen from a precedence. The grammar has operands and operators side by side;
a reader at precedence `p` takes the operators that bind tighter than `p` and leaves the rest to the
one around it. `Operations p` is what it takes; such sequences can be joined and cut where the
precedence changes, and at the lowest precedence they are those of the grammar.
-/
import MonkeyLang.Parse.Expression
import MonkeyLang.Proofs.Parse.Grammar

namespace MonkeyLang

/-! ## Precedences -/

namespace Precedence

theorem lowest_le (p : Precedence) : lowest ≤ p := Nat.zero_le _

theorem lowest_lt_operator (op : BinaryOp) : lowest < op.precedence := by cases op <;> decide

theorem operator_lt_unary (op : BinaryOp) : op.precedence < unary := by cases op <;> decide

theorem operator_le_unary (op : BinaryOp) : op.precedence ≤ unary := by cases op <;> decide

theorem lt_call_of_le_unary {p : Precedence} (h : p ≤ unary) : p < call :=
  Nat.lt_of_le_of_lt h (by decide)

theorem lt_index_of_le_unary {p : Precedence} (h : p ≤ unary) : p < index :=
  Nat.lt_of_le_of_lt h (by decide)

end Precedence

namespace Grammar

theorem isOperator_iff {k : Token.Kind} :
    isOperator k = true ↔ ∃ op, Continuation.ofKind? k = some (.operator op) := by
  cases k <;> simp [isOperator, Continuation.ofKind?]

theorem ofKind?_eq_call {k : Token.Kind} : Continuation.ofKind? k = some .call ↔ k = .leftParen := by
  cases k <;> simp [Continuation.ofKind?]

theorem ofKind?_eq_index {k : Token.Kind} : Continuation.ofKind? k = some .index ↔ k = .leftBracket := by
  cases k <;> simp [Continuation.ofKind?]

theorem opensSuffix_iff {k : Token.Kind} : opensSuffix k = true ↔ k = .leftParen ∨ k = .leftBracket := by
  simp [opensSuffix]

theorem opensSuffix_eq_false {k : Token.Kind} (hc : Continuation.ofKind? k ≠ some .call)
    (hi : Continuation.ofKind? k ≠ some .index) : opensSuffix k = false := by
  rw [← Bool.not_eq_true, opensSuffix_iff, ← ofKind?_eq_call, ← ofKind?_eq_index]
  exact not_or.2 ⟨hc, hi⟩

/-- An operand ends where no call and no subscript follows. -/
theorem opensSuffix_of_derives_unary {ts rest : List Token} (h : Derives .unary ts rest) :
    opensSuffix (headKind rest) = false := by
  -- by the number of tokens: the operand of a sign is an operand again
  induction hn : ts.length using Nat.strongRecOn generalizing ts with
  | ind n ih =>
    subst hn
    rcases derives_unary.1 h with ⟨hk, h⟩ | h
    · have hlt : ts.tail.length < ts.length :=
        length_tail_lt (by rcases hk with hk | hk <;> rw [hk] <;> decide)
      exact ih _ hlt h rfl
    · exact (derives_suffixed.1 h).2

/-! ## Operations at a precedence -/

/-- The operators that bind tighter than `p`, each with its right operand. -/
inductive Operations (p : Precedence) : List Token → List Token → Prop
  | stop {ts : List Token}
      (h : ∀ op, Continuation.ofKind? (headKind ts) = some (.operator op) → ¬ p < op.precedence) :
      Operations p ts ts
  | step {ts mid rest : List Token} {op : BinaryOp}
      (hk : Continuation.ofKind? (headKind ts) = some (.operator op)) (hp : p < op.precedence)
      (hu : Derives .unary ts.tail mid) (h : Operations p mid rest) : Operations p ts rest

/-- An operand and the operations on it that bind tighter than `p`. -/
def Chain (p : Precedence) (ts rest : List Token) : Prop :=
  ∃ mid, Derives .unary ts mid ∧ Operations p mid rest

variable {p q : Precedence} {ts mid rest : List Token}

/-- What a tighter reader took and what is taken after it make up one sequence. -/
theorem Operations.trans (hpq : p ≤ q) (h₁ : Operations q ts mid) (h₂ : Operations p mid rest) :
    Operations p ts rest := by
  induction h₁ with
  | stop _ => exact h₂
  | step hk hq hu _ ih => exact .step hk (Nat.lt_of_le_of_lt hpq hq) hu (ih h₂)

/-- A sequence can be cut where a tighter reader stops. -/
theorem Operations.split (hpq : p ≤ q) (h : Operations p ts rest) :
    ∃ mid, Operations q ts mid ∧ Operations p mid rest := by
  induction h with
  | stop h => exact ⟨_, .stop fun op hk hq => h op hk (Nat.lt_of_le_of_lt hpq hq), .stop h⟩
  | @step ts mid rest op hk hp hu h ih =>
    by_cases hq : q < op.precedence
    · obtain ⟨mid', h₁, h₂⟩ := ih
      exact ⟨mid', .step hk hq hu h₁, h₂⟩
    · -- the tighter reader stops before this operator
      refine ⟨ts, .stop fun op' hk' => ?_, .step hk hp hu h⟩
      rw [hk] at hk'
      cases hk'
      exact hq

theorem Operations.eq_of_unary (h : Operations .unary ts rest) : ts = rest := by
  cases h with
  | stop _ => rfl
  | step _ hp _ _ => exact absurd hp (Nat.lt_asymm (Precedence.operator_lt_unary _))

theorem operations_unary : Operations .unary ts ts :=
  .stop fun _ _ hp => Nat.lt_asymm hp (Precedence.operator_lt_unary _)

/-- No call and no subscript follows a chain. -/
theorem Chain.opensSuffix (h : Chain p ts rest) : opensSuffix (headKind rest) = false := by
  obtain ⟨mid, hu, ho⟩ := h
  have hm := opensSuffix_of_derives_unary hu
  clear hu
  induction ho with
  | stop _ => exact hm
  | step _ _ hu _ ih => exact ih (opensSuffix_of_derives_unary hu)

theorem operations_lowest_iff :
    Operations .lowest ts rest ↔ Derives .operations ts rest ∧ isOperator (headKind rest) = false := by
  constructor
  · intro h
    induction h with
    | @stop ts h =>
      refine ⟨derives_operations.2 (.inl rfl), ?_⟩
      rw [← Bool.not_eq_true, isOperator_iff]
      rintro ⟨op, hk⟩
      exact h op hk (Precedence.lowest_lt_operator op)
    | step hk _ hu _ ih =>
      exact ⟨derives_operations.2 (.inr ⟨isOperator_iff.2 ⟨_, hk⟩, _, hu, ih.1⟩), ih.2⟩
  · rintro ⟨h, hr⟩
    induction hn : ts.length using Nat.strongRecOn generalizing ts with
    | ind n ih =>
      subst hn
      rcases derives_operations.1 h with rfl | ⟨hk, mid, hu, ho⟩
      · refine .stop fun op hk _ => ?_
        rw [isOperator_iff.2 ⟨op, hk⟩] at hr
        cases hr
      · obtain ⟨op, hk⟩ := isOperator_iff.1 hk
        have hlt : mid.length < ts.length :=
          Nat.lt_of_le_of_lt hu.suffix.length_le (length_tail_lt fun he => by rw [he] at hk; cases hk)
        exact .step hk (Precedence.lowest_lt_operator op) hu (ih _ hlt ho rfl)

theorem chain_lowest_iff : Chain .lowest ts rest ↔ Derives .expression ts rest := by
  rw [derives_expression]
  constructor
  · rintro ⟨mid, hu, ho⟩
    obtain ⟨ho, hr⟩ := operations_lowest_iff.1 ho
    exact ⟨⟨mid, hu, ho⟩, hr⟩
  · rintro ⟨⟨mid, hu, ho⟩, hr⟩
    exact ⟨mid, hu, operations_lowest_iff.2 ⟨ho, hr⟩⟩

theorem chain_unary_iff : Chain .unary ts rest ↔ Derives .unary ts rest := by
  constructor
  · rintro ⟨mid, hu, ho⟩
    rwa [← ho.eq_of_unary]
  · intro hu
    exact ⟨rest, hu, operations_unary⟩

end Grammar

end MonkeyLang
