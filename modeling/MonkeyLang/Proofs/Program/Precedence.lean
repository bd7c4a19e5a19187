/-
Chains of operands and binary operators. A tree over such a chain is grouped as the operators bind
(`Expr.Grouped`) if nothing looser stands left of an operator and only tighter ones stand right of it. A
chain has one tree of this kind (`Grouped.unique`): its root is the last of the loosest operators. It is the
tree that is read from the text of the chain (`parse_chain`). For a reader at a precedence takes the operators
that bind tighter, and where it stops, the next one binds no tighter than any it took (`Climbs`).
-/
import MonkeyLang.Proofs.Parse.Joined
import MonkeyLang.Proofs.Program.RoundTrip

namespace MonkeyLang

open Token (Word wordsOf wordsOf_append wordsOf_space wordsOf_nil breaks_cons)
open MonkeyLang.Parser

/-! ## Trees over a chain -/

/-- How tightly an operator binds. -/
def BinaryOp.level : BinaryOp → Nat
  | equal | notEqual => 1
  | less | greater => 2
  | add | sub => 3
  | mul | div => 4

theorem BinaryOp.level_pos (op : BinaryOp) : 0 < op.level := by
  cases op <;> decide

theorem BinaryOp.rank_precedence (op : BinaryOp) : op.precedence.rank = op.level := by
  cases op <;> rfl

/-- A place in a chain. -/
inductive ChainItem where
  | operand (e : Expr)
  | operator (op : BinaryOp)

namespace Expr

/-- The operator at the root. -/
def operator? : Expr → Option BinaryOp
  | .binary op _ _ => some op
  | _ => none

/-- The chain that a tree stands for: what its binary operators join, in order. -/
def inorder : Expr → List ChainItem
  | .binary op l r => l.inorder ++ .operator op :: r.inorder
  | e => [.operand e]

/-- Under every operator, an operator on the left binds as tightly at least, and one on the right more
tightly. -/
def Grouped : Expr → Prop
  | .binary op l r => l.Grouped ∧ r.Grouped ∧ (∀ o ∈ l.operator?, op.level ≤ o.level) ∧
      ∀ o ∈ r.operator?, op.level < o.level
  | _ => True

theorem inorder_of_operator? {e : Expr} (h : e.operator? = none) : e.inorder = [.operand e] := by
  cases e <;> first | rfl | cases h

theorem grouped_of_operator? {e : Expr} (h : e.operator? = none) : e.Grouped := by
  cases e <;> trivial

theorem exists_of_operator? {e : Expr} {op : BinaryOp} (h : e.operator? = some op) : ∃ l r, e = .binary op l r := by
  cases e with
  | binary op' l r =>
    cases h
    exact ⟨l, r, rfl⟩
  | _ => cases h

/-- No operator of a grouped tree is looser than the one at its root. -/
theorem Grouped.level_le {e : Expr} (h : e.Grouped) {o o' : BinaryOp} (ho : o ∈ e.operator?)
    (ho' : .operator o' ∈ e.inorder) : o.level ≤ o'.level := by
  fun_induction inorder e generalizing o with
  | case1 op l r ihl ihr =>
    obtain ⟨hl, hr, hlo, hro⟩ := h
    obtain rfl : op = o := Option.some.inj ho
    rcases List.mem_append.1 ho' with hmem | hmem
    · cases hop : l.operator? with
      | none => simp [inorder_of_operator? hop] at hmem
      | some q => exact Nat.le_trans (hlo q hop) (ihl hl hop hmem)
    · rcases List.mem_cons.1 hmem with hmem | hmem
      · cases hmem
        exact Nat.le_refl _
      · cases hop : r.operator? with
        | none => simp [inorder_of_operator? hop] at hmem
        | some q => exact Nat.le_trans (Nat.le_of_lt (hro q hop)) (ihr hr hop hmem)
  | case2 e _ => simp at ho'

variable {op : BinaryOp} {l r : Expr}

theorem Grouped.level_le_left (h : (binary op l r).Grouped) {o : BinaryOp} (ho : .operator o ∈ l.inorder) :
    op.level ≤ o.level :=
  h.level_le rfl (List.mem_append_left _ ho)

theorem Grouped.level_lt_right (h : (binary op l r).Grouped) {o : BinaryOp} (ho : .operator o ∈ r.inorder) :
    op.level < o.level := by
  cases hop : r.operator? with
  | none => simp [inorder_of_operator? hop] at ho
  | some q => exact Nat.lt_of_lt_of_le (h.2.2.2 q hop) (h.2.1.level_le hop ho)

/-- Of the roots of two grouped trees over one chain, none comes before the other: it would have the other one
on its right, and so be looser, and stand on the left of the other, and so not be looser. -/
theorem Grouped.not_before {op' : BinaryOp} {l' r' : Expr} {xs : List ChainItem} (h : (binary op l r).Grouped)
    (h' : (binary op' l' r').Grouped) (hl : l'.inorder = l.inorder ++ .operator op :: xs)
    (hr : r.inorder = xs ++ .operator op' :: r'.inorder) : False := by
  have hlt : op.level < op'.level := h.level_lt_right (by rw [hr]; simp)
  have hle : op'.level ≤ op.level := h'.level_le_left (by rw [hl]; simp)
  omega

/-- The trees are compared from the root down. -/
theorem Grouped.unique {e e' : Expr} (h : e.Grouped) (h' : e'.Grouped) (heq : e.inorder = e'.inorder) : e = e' := by
  fun_induction inorder e generalizing e' with
  | case1 op l r ihl ihr =>
    cases hop : e'.operator? with
    | none =>
      rw [inorder_of_operator? hop, List.append_eq_singleton_iff] at heq
      simp at heq
    | some op' =>
      obtain ⟨l', r', rfl⟩ := exists_of_operator? hop
      rcases List.append_eq_append_iff.1 heq with ⟨_ | ⟨x, xs⟩, hl, hr⟩ | ⟨_ | ⟨x, xs⟩, hl, hr⟩
      · simp only [List.append_nil, List.nil_append, List.cons.injEq, ChainItem.operator.injEq] at hl hr
        obtain ⟨rfl, hr⟩ := hr
        rw [ihl h.1 h'.1 hl.symm, ihr h.2.1 h'.2.1 hr]
      · obtain ⟨rfl, hr'⟩ := List.cons.inj hr
        exact (h.not_before h' hl hr').elim
      · simp only [List.append_nil, List.nil_append, List.cons.injEq, ChainItem.operator.injEq] at hl hr
        obtain ⟨rfl, hr⟩ := hr
        rw [ihl h.1 h'.1 hl, ihr h.2.1 h'.2.1 hr.symm]
      · obtain ⟨rfl, hr'⟩ := List.cons.inj hr
        exact (h'.not_before h hl hr').elim
  | case2 e hne =>
    cases hop : e'.operator? with
    | none =>
      rw [inorder_of_operator? hop] at heq
      simpa using heq
    | some op' =>
      obtain ⟨l', r', rfl⟩ := exists_of_operator? hop
      have := List.append_eq_singleton_iff.1 heq.symm
      simp at this

end Expr

/-! ## The text of a chain -/

/-- A name, or a number that 64 bits can hold. -/
inductive Atom where
  | name (text : String) (h : isName text = true)
  | number (text : String) (hne : text ≠ "") (hd : ∀ c ∈ text.toList, Token.isDigit c = true)
    (hn : Text.numeral text.toList < Text.integerLimit)

namespace Atom

def text : Atom → String
  | .name text _ => text
  | .number text _ _ _ => text

def expr : Atom → Expr
  | .name text _ => .ident text
  | .number text _ _ _ => .int (Int64.ofNat (Text.numeral text.toList))

end Atom

/-- An atom with signs in front of it. -/
structure SignedAtom where
  signs : List UnaryOp
  atom : Atom

namespace SignedAtom

def texts (x : SignedAtom) : List String := x.signs.map UnaryOp.sign ++ [x.atom.text]

def expr (x : SignedAtom) : Expr := x.signs.foldr .unary x.atom.expr

end SignedAtom

/-- A binary operator and its right operand. -/
structure Operation where
  op : BinaryOp
  operand : SignedAtom

namespace Operation

def texts (x : Operation) : List String := x.op.sign :: x.operand.texts

def items (x : Operation) : List ChainItem := [.operator x.op, .operand x.operand.expr]

end Operation

structure OperatorChain where
  first : SignedAtom
  rest : List Operation

/-- Texts with one space or more between them; `gap` tells how many there are in addition to one. -/
def spaced : (Nat → Nat) → List String → String
  | _, [] => ""
  | _, [t] => t
  | gap, t :: u :: ts => t ++ String.ofList (List.replicate (gap 0 + 1) ' ') ++ spaced (fun i => gap (i + 1)) (u :: ts)

namespace OperatorChain

def source (c : OperatorChain) (gap : Nat → Nat) : String :=
  spaced gap (c.first.texts ++ c.rest.flatMap Operation.texts)

def items (c : OperatorChain) : List ChainItem := .operand c.first.expr :: c.rest.flatMap Operation.items

end OperatorChain

/-! ## The words of a chain -/

def UnaryOp.kind : UnaryOp → Token.Kind
  | not => .bang
  | neg => .minus

def UnaryOp.signWord (op : UnaryOp) : Word := ⟨op.kind, op.sign⟩

def BinaryOp.signWord (op : BinaryOp) : Word := ⟨op.kind, op.sign⟩

theorem UnaryOp.wordsOf_sign (op : UnaryOp) : wordsOf op.sign.toList = [op.signWord] := by
  cases op with
  | not => exact (Token.wordsOf_cons (c := '!') rfl []).trans (congrArg (UnaryOp.not.signWord :: ·) wordsOf_nil)
  | neg => exact (Token.wordsOf_sign (c := '-') rfl []).trans (congrArg (UnaryOp.neg.signWord :: ·) wordsOf_nil)

theorem BinaryOp.wordsOf_sign (op : BinaryOp) : wordsOf op.sign.toList = [op.signWord] := by
  have h := wordsOf_operator op []
  rwa [wordsOf_append (quote_not_mem_sign op) (breaks_cons rfl _), wordsOf_space, wordsOf_nil, List.append_nil] at h

theorem wordsOf_spaces (n : Nat) (cs : List Char) : wordsOf (List.replicate n ' ' ++ cs) = wordsOf cs := by
  induction n with
  | zero => rfl
  | succ n ih => rw [List.replicate_succ, List.cons_append, wordsOf_space, ih]

theorem wordsOf_spaced {ts : List String} (hq : ∀ t ∈ ts, '"' ∉ t.toList) (gap : Nat → Nat) :
    wordsOf (spaced gap ts).toList = ts.flatMap fun t => wordsOf t.toList := by
  fun_induction spaced gap ts with
  | case1 => exact wordsOf_nil
  | case2 gap t => simp
  | case3 gap t u ts ih =>
    have ht : '"' ∉ t.toList := hq t List.mem_cons_self
    rw [String.toList_append, String.toList_append, String.toList_ofList, List.append_assoc, List.replicate_succ,
      List.cons_append, wordsOf_append ht (breaks_cons rfl _), wordsOf_space, wordsOf_spaces,
      ih fun v hv => hq v (List.mem_cons_of_mem t hv)]
    rfl

namespace Atom

def word : Atom → Word
  | .name text _ => ⟨.ident, text⟩
  | .number text _ _ _ => ⟨.int, text⟩

theorem wordsOf_text (a : Atom) : wordsOf a.text.toList = [a.word] := by
  cases a with
  | name text h =>
    have hw := wordsOf_name h Token.breaks_nil
    rwa [List.append_nil, wordsOf_nil] at hw
  | number text hne hd hn =>
    have hw := Token.wordsOf_digits text.toList (by simpa using hne) hd
    rwa [String.ofList_toList] at hw

theorem quote_not_mem (a : Atom) : '"' ∉ a.text.toList := by
  cases a with
  | name text h => exact quote_not_mem_of_isName h
  | number text hne hd hn => exact fun h => absurd (hd _ h) (by decide)

end Atom

namespace SignedAtom

def words (x : SignedAtom) : List Word := x.signs.map UnaryOp.signWord ++ [x.atom.word]

theorem flatMap_texts (x : SignedAtom) : (x.texts.flatMap fun t => wordsOf t.toList) = x.words := by
  simp [texts, words, List.flatMap_map, UnaryOp.wordsOf_sign, Atom.wordsOf_text, ← List.map_eq_flatMap]

theorem quote_not_mem (x : SignedAtom) : ∀ t ∈ x.texts, '"' ∉ t.toList := by
  intro t ht
  rcases List.mem_append.1 ht with ht | ht
  · obtain ⟨op, -, rfl⟩ := List.mem_map.1 ht
    cases op <;> decide
  · rw [List.mem_singleton.1 ht]
    exact x.atom.quote_not_mem

theorem operator?_expr (x : SignedAtom) : x.expr.operator? = none := by
  obtain ⟨_ | _, _ | _⟩ := x <;> rfl

end SignedAtom

def Operation.words (x : Operation) : List Word := x.op.signWord :: x.operand.words

theorem OperatorChain.wordsOf_source (c : OperatorChain) (gap : Nat → Nat) :
    wordsOf (c.source gap).toList = c.first.words ++ c.rest.flatMap Operation.words := by
  rw [source, wordsOf_spaced, List.flatMap_append, SignedAtom.flatMap_texts, List.flatMap_assoc]
  · simp only [Operation.texts, List.flatMap_cons, BinaryOp.wordsOf_sign, SignedAtom.flatMap_texts]
    rfl
  · intro t ht
    rcases List.mem_append.1 ht with ht | ht
    · exact c.first.quote_not_mem t ht
    · obtain ⟨x, -, ht⟩ := List.mem_flatMap.1 ht
      rcases List.mem_cons.1 ht with rfl | ht
      · exact quote_not_mem_sign x.op
      · exact x.operand.quote_not_mem t ht

/-! ## Reading a chain -/

variable {n : Nat} {es : List ParseError} {ts rest : List Token}

/-- Behind a signed operand only a call or a subscript would go on. -/
theorem reads_climb_unary {f : Precedence → Parser Expr} [∀ p, Lawful (f p)] {k : Nat} {e : Expr} {t : Token}
    (h : Grammar.opensSuffix (headKind rest) = false) :
    Reads n es (climb f .unary k e) (t :: rest) e (t :: rest) := by
  cases k with
  | zero => exact reads_climb_zero.2 ⟨rfl, rfl⟩
  | succ k =>
    rw [reads_climb_succ, List.tail_cons]
    split
    · exact ⟨rfl, rfl⟩
    · next c hc =>
      refine .inr ⟨?_, rfl, rfl⟩
      cases c with
      | operator op => exact Nat.lt_asymm (Precedence.operator_lt_unary op)
      | call => simp [Grammar.ofKind?_eq_call.1 hc, Grammar.opensSuffix] at h
      | index => simp [Grammar.ofKind?_eq_index.1 hc, Grammar.opensSuffix] at h

theorem reads_operand_atom {a : Atom} {t : Token} {m : Nat} (hk : t.kind = a.word.kind)
    (hl : t.literal = a.word.literal) : Reads n es (operand (expr m)) (t :: rest) a.expr (t :: rest) := by
  rw [reads_operand, headKind_cons, hk]
  cases a with
  | name text h => exact ⟨by rw [headLiteral_cons, hl]; rfl, rfl⟩
  | number text hne hd hn =>
    have htext : headLiteral (t :: rest) = text := hl
    exact reads_integer.2 ⟨by rwa [htext], by rw [htext]; rfl, rfl⟩

theorem SignedAtom.starts {x : SignedAtom} (hs : Spells x.words ts rest) :
    Grammar.startsOperand (headKind ts) = true ∧ rest.length < ts.length := by
  obtain ⟨_ | ⟨op, signs⟩, a⟩ := x
  · refine ⟨?_, hs.headKind_first.2⟩
    rw [hs.headKind_first.1]
    cases a <;> rfl
  · refine ⟨?_, hs.headKind_first.2⟩
    rw [hs.headKind_first.1]
    cases op <;> rfl

/-- The signs are read from the outermost in. -/
theorem reads_operand_signed {signs : List UnaryOp} {a : Atom} (hs : Spells (SignedAtom.mk signs a).words ts rest)
    (hr : Grammar.opensSuffix (headKind rest) = false) {m : Nat} (hm : ts.length ≤ m + 1) :
    ∃ t, Reads n es (operand (expr m)) ts (SignedAtom.mk signs a).expr (t :: rest) := by
  induction signs generalizing ts m with
  | nil =>
    obtain ⟨t, us, hk, hl, rfl, hus⟩ := spells_cons.1 hs
    obtain rfl := spells_nil.1 hus
    exact ⟨t, reads_operand_atom hk hl⟩
  | cons op signs ih =>
    obtain ⟨t, us, hk, -, rfl, hus⟩ := spells_cons.1 hs
    have hpos := (SignedAtom.starts (x := ⟨signs, a⟩) hus).2
    simp only [List.length_cons] at hm
    obtain ⟨m, rfl⟩ : ∃ k, m = k + 1 := ⟨m - 1, by omega⟩
    obtain ⟨u, hu⟩ := ih hus (m := m) (by omega)
    have hexpr : Reads n es (expr (m + 1) .unary) us (SignedAtom.mk signs a).expr (u :: rest) :=
      reads_expr_succ.2 ⟨_, _, hu, reads_climb_unary hr⟩
    refine ⟨u, ?_⟩
    rw [reads_operand, headKind_cons, hk]
    cases op <;> exact reads_unary.2 ⟨_, rfl, hexpr⟩

/-- What a reader at precedence `p` makes of operations behind `left`: it takes the first of them into `e` and
leaves the later ones, which the one around it goes on with. -/
structure Climbs (p : Precedence) (left : Expr) (xs : List Operation) (e : Expr) (later : List Operation) : Prop where
  items : e.inorder ++ later.flatMap Operation.items = left.inorder ++ xs.flatMap Operation.items
  grouped : e.Grouped
  tighter : ∀ o ∈ e.operator?, p.rank < o.level
  stops : ∀ x ∈ later.head?, x.op.level ≤ p.rank
  length_le : later.length ≤ xs.length

namespace Climbs

variable {p : Precedence} {left r e : Expr} {x : Operation} {xs later later' : List Operation}

/-- What is read at the precedence of an operator can stand on its right. -/
theorem grouped_binary (h : Climbs x.op.precedence x.operand.expr xs r later) (hg : left.Grouped)
    (hleft : ∀ o ∈ left.operator?, x.op.level ≤ o.level) : (Expr.binary x.op left r).Grouped := by
  refine ⟨hg, h.grouped, hleft, fun o ho => ?_⟩
  rw [← x.op.rank_precedence]
  exact h.tighter o ho

/-- A turn of the loop and the turns after it. -/
theorem binary (h : Climbs x.op.precedence x.operand.expr xs r later)
    (h' : Climbs p (.binary x.op left r) later e later') : Climbs p left (x :: xs) e later' where
  items := calc
    e.inorder ++ later'.flatMap Operation.items
        = left.inorder ++ .operator x.op :: (r.inorder ++ later.flatMap Operation.items) := by
          rw [h'.items, Expr.inorder, List.append_assoc, List.cons_append]
      _ = left.inorder ++ (x :: xs).flatMap Operation.items := by
          rw [h.items, Expr.inorder_of_operator? x.operand.operator?_expr]
          rfl
  grouped := h'.grouped
  tighter := h'.tighter
  stops := h'.stops
  length_le := Nat.le_succ_of_le (Nat.le_trans h'.length_le h.length_le)

end Climbs

theorem ofKind?_signWord (op : BinaryOp) : Continuation.ofKind? op.signWord.kind = some (.operator op) := by
  cases op <;> rfl

theorem opensSuffix_of_spells {xs : List Operation} (hs : Spells (xs.flatMap Operation.words) ts rest)
    (hr : Continuation.ofKind? (headKind rest) = none) : Grammar.opensSuffix (headKind ts) = false := by
  cases xs with
  | nil =>
    rw [spells_nil.1 hs]
    exact Grammar.opensSuffix_eq_false (by simp [hr]) (by simp [hr])
  | cons x xs =>
    rw [hs.headKind_first.1]
    exact Grammar.opensSuffix_eq_false (by simp [ofKind?_signWord]) (by simp [ofKind?_signWord])

/-- By the number of operations left. An operator that binds tighter than `p` takes as its right operand what a
reader at its own precedence makes of the rest, and the loop goes on behind that. -/
theorem exists_climbs {xs : List Operation} (hs : Spells (xs.flatMap Operation.words) ts rest)
    (hr : Continuation.ofKind? (headKind rest) = none) {m k : Nat} (hm : ts.length ≤ m) (hk : ts.length ≤ k)
    {p : Precedence} {left : Expr} (hg : left.Grouped) (hp : ∀ o ∈ left.operator?, p.rank < o.level)
    (hnext : ∀ o ∈ left.operator?, ∀ x ∈ xs.head?, x.op.level ≤ o.level) (t : Token) :
    ∃ e later t' ts', Reads n es (climb (expr m) p k left) (t :: ts) e (t' :: ts') ∧
      Spells (later.flatMap Operation.words) ts' rest ∧ Climbs p left xs e later := by
  induction hlen : xs.length using Nat.strongRecOn generalizing xs ts m k p left t with
  | ind len ih =>
    subst hlen
    cases xs with
    | nil =>
      obtain rfl := spells_nil.1 hs
      exact ⟨left, [], t, _, reads_climb_stop hr, hs, rfl, hg, hp, by simp, Nat.le_refl _⟩
    | cons x xs =>
      obtain ⟨o, us, ho, -, rfl, hus⟩ := spells_cons.1 hs
      obtain ⟨mid, hx, hxs⟩ := spells_append.1 hus
      have hof : Continuation.ofKind? (headKind (o :: us)) = some (.operator x.op) := by
        rw [headKind_cons, ho]
        exact ofKind?_signWord x.op
      have hrank := x.op.rank_precedence
      simp only [List.length_cons] at hm hk
      obtain ⟨k, rfl⟩ : ∃ i, k = i + 1 := ⟨k - 1, by omega⟩
      by_cases hlt : p < x.op.precedence
      · obtain ⟨m, rfl⟩ : ∃ i, m = i + 1 := ⟨m - 1, by omega⟩
        have hle := hx.length_le
        have hnone := x.operand.operator?_expr
        obtain ⟨t₁, hx'⟩ := reads_operand_signed hx (opensSuffix_of_spells hxs hr) (Nat.le_of_succ_le hm)
        obtain ⟨r, later, t₂, ts₂, hread, hlater, hclimbs⟩ := ih xs.length (Nat.lt_succ_self _) hxs
          (show mid.length ≤ m by omega) (Nat.le_succ _) (Expr.grouped_of_operator? hnone)
          (show ∀ o ∈ x.operand.expr.operator?, x.op.precedence.rank < o.level by simp [hnone]) (by simp [hnone]) t₁ rfl
        have hle₂ := hread.suffix.length_le
        simp only [List.length_cons] at hle₂
        have hgroup := hclimbs.grouped_binary hg fun o ho => hnext o ho x rfl
        have hroot : ∀ o ∈ (Expr.binary x.op left r).operator?, p.rank < o.level := by
          rintro o ⟨⟩
          exact hrank ▸ hlt
        have hafter : ∀ o ∈ (Expr.binary x.op left r).operator?, ∀ y ∈ later.head?, y.op.level ≤ o.level := by
          rintro o ⟨⟩ y hy
          exact hrank ▸ hclimbs.stops y hy
        obtain ⟨e, later', t₃, ts₃, hread', hlater', hclimbs'⟩ := ih later.length
          (Nat.lt_succ_of_le hclimbs.length_le) hlater (show ts₂.length ≤ m + 1 by omega)
          (show ts₂.length ≤ k by omega) hgroup hroot hafter t₂ rfl
        refine ⟨e, later', t₃, ts₃, ?_, hlater', hclimbs.binary hclimbs'⟩
        rw [reads_climb_succ, List.tail_cons, hof]
        exact .inl ⟨hlt, _, _, reads_continued_operator.2 ⟨r, rfl, reads_expr_succ.2 ⟨_, _, hx', hread⟩⟩, hread'⟩
      · have hle : x.op.level ≤ p.rank := hrank ▸ Nat.not_lt.1 hlt
        refine ⟨left, x :: xs, t, o :: us, ?_, hs, rfl, hg, hp, by simpa using hle, Nat.le_refl _⟩
        rw [reads_climb_succ, List.tail_cons, hof]
        exact .inr ⟨hlt, rfl, rfl⟩

/-- A chain of any length, with its words apart: it is read without an error, as one expression, and this is the
one grouped tree over the chain. -/
theorem parse_chain (c : OperatorChain) (gap : Nat → Nat) :
    ∃ e, parse (c.source gap) = ⟨⟨[.expr e]⟩, []⟩ ∧ e.inorder = c.items ∧ e.Grouped ∧
      ∀ e', Expr.inorder e' = c.items → e'.Grouped → e' = e := by
  have hs : Spells (c.first.words ++ c.rest.flatMap Operation.words) (Token.tokenize (c.source gap)).dropLast [] := by
    rw [← c.wordsOf_source gap]
    exact ⟨_, Token.map_word_tokenize _, (List.append_nil _).symm⟩
  obtain ⟨mid, hfirst, hrest⟩ := spells_append.1 hs
  obtain ⟨hstart, hlt⟩ := SignedAtom.starts hfirst
  have hnone := c.first.operator?_expr
  obtain ⟨m, hm⟩ := Nat.exists_eq_succ_of_ne_zero (Nat.ne_zero_of_lt hlt)
  obtain ⟨t, hread⟩ := reads_operand_signed hfirst (opensSuffix_of_spells hrest rfl) (Nat.le_of_eq hm)
  obtain ⟨e, later, t', ts', hread', hlater, hclimbs⟩ := exists_climbs hrest rfl (m := m) (by omega) (Nat.le_succ _)
    (p := .lowest) (Expr.grouped_of_operator? hnone) (by simp [hnone]) (by simp [hnone]) t
  -- at the lowest precedence no operation is left over
  obtain rfl : later = [] := by
    cases later with
    | nil => rfl
    | cons x xs => exact absurd (hclimbs.stops x rfl) (Nat.not_le.2 x.op.level_pos)
  obtain rfl := spells_nil.1 hlater
  have hitems : e.inorder = c.items := by
    have hitems := hclimbs.items
    rwa [List.flatMap_nil, List.append_nil, Expr.inorder_of_operator? hnone] at hitems
  refine ⟨e, parse_of_reads_expr hstart (t := t') ?_, hitems, hclimbs.grouped, fun e' he' hg' => ?_⟩
  · rw [hm]
    exact reads_expr_succ.2 ⟨_, _, hread, hread'⟩
  · exact hg'.unique hclimbs.grouped (he'.trans hitems.symm)

end MonkeyLang
