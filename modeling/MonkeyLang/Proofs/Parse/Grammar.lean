/-
The grammar of programs as a table of productions, apart from how they are read. `Yields α ts rest`
says that the symbols `α` derive the tokens of `ts` up to `rest`; the tokens that follow take part
because an operand may not stop short of a call or a subscript, nor an expression of an operator.
-/
import MonkeyLang.Proofs.Parse.Clean
import Mathlib.Algebra.Group.Nat.Defs

namespace MonkeyLang.Grammar

inductive Category where
  | statements
  | statement
  | terminator
  | expression
  | operations
  | unary
  | suffixed
  | suffixes
  | primary
  | block
  | alternative
  | params
  | moreParams
  | expressions
  | moreExpressions
  | pairs
  | pair
  | morePairs
  | trailingComma
deriving DecidableEq, Repr

inductive Symbol where
  /-- A token of a kind. -/
  | kind (k : Token.Kind)
  /-- A number of at most `2 ^ 63 - 1`. -/
  | integer
  /-- The end of the text. -/
  | finish
  | part (x : Category)
deriving DecidableEq, Repr

open Category in
/-- The productions of each category. -/
def rules : Category → List (List Symbol)
  | statements => [[], [.part statement, .part statements]]
  | statement =>
    [[.kind .letWord, .kind .ident, .kind .assign, .part expression, .part terminator],
     [.kind .returnWord, .part expression, .part terminator],
     [.part expression, .part terminator]]
  | terminator => [[], [.kind .semicolon]]
  | expression => [[.part unary, .part operations]]
  | operations =>
    [[],
     [.kind .plus, .part unary, .part operations],
     [.kind .minus, .part unary, .part operations],
     [.kind .asterisk, .part unary, .part operations],
     [.kind .slash, .part unary, .part operations],
     [.kind .less, .part unary, .part operations],
     [.kind .greater, .part unary, .part operations],
     [.kind .equal, .part unary, .part operations],
     [.kind .notEqual, .part unary, .part operations]]
  | unary => [[.kind .bang, .part unary], [.kind .minus, .part unary], [.part suffixed]]
  | suffixed => [[.part primary, .part suffixes]]
  | suffixes =>
    [[],
     [.kind .leftParen, .part expressions, .kind .rightParen, .part suffixes],
     [.kind .leftBracket, .part expression, .kind .rightBracket, .part suffixes]]
  | primary =>
    [[.kind .ident], [.kind .string], [.kind .trueWord], [.kind .falseWord], [.integer],
     [.kind .leftParen, .part expression, .kind .rightParen],
     [.kind .ifWord, .kind .leftParen, .part expression, .kind .rightParen, .part block,
      .part alternative],
     [.kind .functionWord, .kind .leftParen, .part params, .kind .rightParen, .part block],
     [.kind .leftBracket, .part expressions, .kind .rightBracket],
     [.kind .leftBrace, .part pairs, .kind .rightBrace]]
  | block =>
    [[.kind .leftBrace, .part statements, .kind .rightBrace],
     [.kind .leftBrace, .part statements, .finish]]
  | alternative => [[], [.kind .elseWord, .part block]]
  | params => [[], [.kind .ident, .part moreParams]]
  | moreParams => [[], [.kind .comma, .kind .ident, .part moreParams]]
  | expressions => [[], [.part expression, .part moreExpressions]]
  | moreExpressions => [[], [.kind .comma, .part expression, .part moreExpressions]]
  | pairs => [[], [.part pair, .part morePairs, .part trailingComma]]
  | pair => [[.part expression, .kind .colon, .part expression]]
  | morePairs => [[], [.kind .comma, .part pair, .part morePairs]]
  | trailingComma => [[], [.kind .comma]]

def opensSuffix (k : Token.Kind) : Bool := k == .leftParen || k == .leftBracket

def isOperator (k : Token.Kind) : Bool :=
  k == .plus || k == .minus || k == .asterisk || k == .slash || k == .less || k == .greater ||
    k == .equal || k == .notEqual

/-- Whether a part of a program may stand right before a token of a kind. -/
def Category.admits : Category → Token.Kind → Bool
  | suffixed, k => !opensSuffix k
  | expression, k => !isOperator k
  | _, _ => true

inductive Yields : List Symbol → List Token → List Token → Prop
  | nil {ts : List Token} : Yields [] ts ts
  | kind {t : Token} {ts rest : List Token} {α : List Symbol} (h : Yields α ts rest) :
      Yields (.kind t.kind :: α) (t :: ts) rest
  | integer {t : Token} {ts rest : List Token} {α : List Symbol} (hk : t.kind = .int)
      (hn : Text.numeral t.literal.toList ≤ 2 ^ 63 - 1) (h : Yields α ts rest) :
      Yields (.integer :: α) (t :: ts) rest
  | finish {rest : List Token} {α : List Symbol} (h : Yields α [] rest) : Yields (.finish :: α) [] rest
  | part {x : Category} {ts mid rest : List Token} {α β : List Symbol} (hβ : β ∈ rules x)
      (hx : Yields β ts mid) (ha : x.admits (headKind mid) = true) (h : Yields α mid rest) :
      Yields (.part x :: α) ts rest

/-- The tokens of `ts` up to `rest` are derivable as an `x`. -/
def Derives (x : Category) (ts rest : List Token) : Prop :=
  ∃ α ∈ rules x, Yields α ts rest ∧ x.admits (headKind rest) = true

variable {ts rest : List Token}

/-! ## Symbols -/

@[simp] theorem yields_nil : Yields [] ts rest ↔ ts = rest := by
  constructor
  · rintro ⟨⟩; rfl
  · rintro rfl; exact .nil

theorem yields_kind {k : Token.Kind} {α : List Symbol} (hk : k ≠ .endOfInput) :
    Yields (.kind k :: α) ts rest ↔ headKind ts = k ∧ Yields α ts.tail rest := by
  constructor
  · rintro ⟨⟩
    exact ⟨rfl, by assumption⟩
  · rintro ⟨h, hα⟩
    obtain ⟨t, rfl, ht⟩ := exists_cons_of_headKind h hk
    rw [ht]
    exact .kind hα

@[simp] theorem yields_integer {α : List Symbol} :
    Yields (.integer :: α) ts rest ↔ headKind ts = .int ∧
      Text.numeral (headLiteral ts).toList ≤ 2 ^ 63 - 1 ∧ Yields α ts.tail rest := by
  constructor
  · rintro ⟨⟩
    exact ⟨‹_›, ‹_›, ‹_›⟩
  · rintro ⟨hk, hn, h⟩
    obtain ⟨t, ht, hts⟩ := exists_cons_of_headKind hk (by decide)
    rw [hts] at hn ⊢
    exact .integer ht hn h

@[simp] theorem yields_finish {α : List Symbol} :
    Yields (.finish :: α) ts rest ↔ ts = [] ∧ Yields α [] rest := by
  constructor
  · rintro ⟨⟩; exact ⟨rfl, ‹_›⟩
  · rintro ⟨rfl, h⟩; exact .finish h

@[simp] theorem yields_part {x : Category} {α : List Symbol} :
    Yields (.part x :: α) ts rest ↔ ∃ mid, Derives x ts mid ∧ Yields α mid rest := by
  constructor
  · rintro ⟨⟩
    exact ⟨_, ⟨_, ‹_›, ‹_›, ‹_›⟩, ‹_›⟩
  · rintro ⟨mid, ⟨β, hβ, hx, ha⟩, h⟩
    exact .part hβ hx ha h

/-- A derivation takes tokens off the front. -/
theorem Yields.suffix {α : List Symbol} (h : Yields α ts rest) : rest <:+ ts := by
  induction h with
  | nil => exact List.suffix_refl _
  | kind _ ih => exact ih.trans (List.suffix_cons ..)
  | integer _ _ _ ih => exact ih.trans (List.suffix_cons ..)
  | finish _ ih => exact ih
  | part _ _ _ _ ihx ih => exact ih.trans ihx

theorem Derives.suffix {x : Category} (h : Derives x ts rest) : rest <:+ ts := by
  obtain ⟨α, -, hα, -⟩ := h
  exact hα.suffix

/-! ## Categories -/

theorem derives_statements : Derives .statements ts rest ↔
    ts = rest ∨ ∃ mid, Derives .statement ts mid ∧ Derives .statements mid rest := by
  conv_lhs => unfold Derives
  simp [rules, Category.admits]

theorem derives_terminator : Derives .terminator ts rest ↔
    ts = rest ∨ (headKind ts = .semicolon ∧ ts.tail = rest) := by
  simp [Derives, rules, Category.admits, yields_kind]

theorem derives_statement : Derives .statement ts rest ↔
    (headKind ts = .letWord ∧ headKind ts.tail = .ident ∧ headKind ts.tail.tail = .assign ∧
      ∃ mid, Derives .expression ts.tail.tail.tail mid ∧ Derives .terminator mid rest) ∨
    (headKind ts = .returnWord ∧
      ∃ mid, Derives .expression ts.tail mid ∧ Derives .terminator mid rest) ∨
    (∃ mid, Derives .expression ts mid ∧ Derives .terminator mid rest) := by
  conv_lhs => unfold Derives
  simp [rules, Category.admits, yields_kind]

theorem derives_expression : Derives .expression ts rest ↔
    (∃ mid, Derives .unary ts mid ∧ Derives .operations mid rest) ∧
      isOperator (headKind rest) = false := by
  conv_lhs => unfold Derives
  simp [rules, Category.admits]

theorem derives_operations : Derives .operations ts rest ↔
    ts = rest ∨ (isOperator (headKind ts) = true ∧
      ∃ mid, Derives .unary ts.tail mid ∧ Derives .operations mid rest) := by
  conv_lhs => unfold Derives
  simp only [rules, Category.admits, and_true, List.mem_cons, List.not_mem_nil, or_false,
    exists_eq_or_imp, exists_eq_left, yields_nil, yields_part, exists_eq_right, yields_kind, ne_eq,
    reduceCtorEq, not_false_eq_true]
  simp only [isOperator, Bool.or_eq_true, beq_iff_eq, or_and_right, or_assoc]

theorem derives_unary : Derives .unary ts rest ↔
    ((headKind ts = .bang ∨ headKind ts = .minus) ∧ Derives .unary ts.tail rest) ∨
      Derives .suffixed ts rest := by
  conv_lhs => unfold Derives
  simp only [rules, Category.admits, and_true, List.mem_cons, List.not_mem_nil, or_false,
    exists_eq_or_imp, exists_eq_left, yields_nil, yields_part, exists_eq_right, yields_kind, ne_eq,
    reduceCtorEq, not_false_eq_true]
  simp only [or_and_right, or_assoc]

theorem derives_suffixed : Derives .suffixed ts rest ↔
    (∃ mid, Derives .primary ts mid ∧ Derives .suffixes mid rest) ∧
      opensSuffix (headKind rest) = false := by
  conv_lhs => unfold Derives
  simp [rules, Category.admits]

theorem derives_suffixes : Derives .suffixes ts rest ↔
    ts = rest ∨
    (headKind ts = .leftParen ∧ ∃ mid, Derives .expressions ts.tail mid ∧
      headKind mid = .rightParen ∧ Derives .suffixes mid.tail rest) ∨
    (headKind ts = .leftBracket ∧ ∃ mid, Derives .expression ts.tail mid ∧
      headKind mid = .rightBracket ∧ Derives .suffixes mid.tail rest) := by
  conv_lhs => unfold Derives
  simp [rules, Category.admits, yields_kind]

theorem derives_primary : Derives .primary ts rest ↔
    ((headKind ts = .ident ∨ headKind ts = .string ∨ headKind ts = .trueWord ∨
      headKind ts = .falseWord) ∧ ts.tail = rest) ∨
    (headKind ts = .int ∧ Text.numeral (headLiteral ts).toList ≤ 2 ^ 63 - 1 ∧ ts.tail = rest) ∨
    (headKind ts = .leftParen ∧ ∃ mid, Derives .expression ts.tail mid ∧
      headKind mid = .rightParen ∧ mid.tail = rest) ∨
    (headKind ts = .ifWord ∧ headKind ts.tail = .leftParen ∧
      ∃ mid, Derives .expression ts.tail.tail mid ∧ headKind mid = .rightParen ∧
        ∃ mid', Derives .block mid.tail mid' ∧ Derives .alternative mid' rest) ∨
    (headKind ts = .functionWord ∧ headKind ts.tail = .leftParen ∧
      ∃ mid, Derives .params ts.tail.tail mid ∧ headKind mid = .rightParen ∧
        Derives .block mid.tail rest) ∨
    (headKind ts = .leftBracket ∧ ∃ mid, Derives .expressions ts.tail mid ∧
      headKind mid = .rightBracket ∧ mid.tail = rest) ∨
    (headKind ts = .leftBrace ∧ ∃ mid, Derives .pairs ts.tail mid ∧
      headKind mid = .rightBrace ∧ mid.tail = rest) := by
  conv_lhs => unfold Derives
  simp only [rules, Category.admits, and_true, List.mem_cons, List.not_mem_nil, or_false,
    exists_eq_or_imp, exists_eq_left, yields_nil, yields_part, exists_eq_right, yields_kind, ne_eq,
    reduceCtorEq, not_false_eq_true, yields_integer]
  simp only [or_and_right, or_assoc]

theorem derives_block : Derives .block ts rest ↔
    headKind ts = .leftBrace ∧ ∃ mid, Derives .statements ts.tail mid ∧
      ((headKind mid = .rightBrace ∧ mid.tail = rest) ∨ (mid = [] ∧ rest = [])) := by
  conv_lhs => unfold Derives
  simp [rules, Category.admits, yields_kind, and_or_left, exists_or, eq_comm]

theorem derives_alternative : Derives .alternative ts rest ↔
    ts = rest ∨ (headKind ts = .elseWord ∧ Derives .block ts.tail rest) := by
  conv_lhs => unfold Derives
  simp [rules, Category.admits, yields_kind]

theorem derives_params : Derives .params ts rest ↔
    ts = rest ∨ (headKind ts = .ident ∧ Derives .moreParams ts.tail rest) := by
  conv_lhs => unfold Derives
  simp [rules, Category.admits, yields_kind]

theorem derives_moreParams : Derives .moreParams ts rest ↔
    ts = rest ∨ (headKind ts = .comma ∧ headKind ts.tail = .ident ∧
      Derives .moreParams ts.tail.tail rest) := by
  conv_lhs => unfold Derives
  simp [rules, Category.admits, yields_kind]

theorem derives_expressions : Derives .expressions ts rest ↔
    ts = rest ∨ ∃ mid, Derives .expression ts mid ∧ Derives .moreExpressions mid rest := by
  conv_lhs => unfold Derives
  simp [rules, Category.admits]

theorem derives_moreExpressions : Derives .moreExpressions ts rest ↔
    ts = rest ∨ (headKind ts = .comma ∧
      ∃ mid, Derives .expression ts.tail mid ∧ Derives .moreExpressions mid rest) := by
  conv_lhs => unfold Derives
  simp [rules, Category.admits, yields_kind]

theorem derives_pairs : Derives .pairs ts rest ↔
    ts = rest ∨ ∃ mid, Derives .pair ts mid ∧
      ∃ mid', Derives .morePairs mid mid' ∧ Derives .trailingComma mid' rest := by
  conv_lhs => unfold Derives
  simp [rules, Category.admits]

theorem derives_pair : Derives .pair ts rest ↔
    ∃ mid, Derives .expression ts mid ∧ headKind mid = .colon ∧ Derives .expression mid.tail rest := by
  conv_lhs => unfold Derives
  simp [rules, Category.admits, yields_kind]

theorem derives_morePairs : Derives .morePairs ts rest ↔
    ts = rest ∨ (headKind ts = .comma ∧
      ∃ mid, Derives .pair ts.tail mid ∧ Derives .morePairs mid rest) := by
  conv_lhs => unfold Derives
  simp [rules, Category.admits, yields_kind]

theorem derives_trailingComma : Derives .trailingComma ts rest ↔
    ts = rest ∨ (headKind ts = .comma ∧ ts.tail = rest) := by
  conv_lhs => unfold Derives
  simp [rules, Category.admits, yields_kind]

end MonkeyLang.Grammar
