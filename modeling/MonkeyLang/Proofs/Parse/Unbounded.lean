/-
The grammar without bounds. The rules bound each loop and each nesting by the number of unread tokens; here they stand
as the answers to goals that ask for further goals (`Readers.unfold`), and nothing says how often. A goal has a
weight, which counts the unread tokens first. If the goals of less weight are answered as by the rules, with whatever
bounds are enough for them, then so is the goal itself (`Answers.turn`, `Answers.operand`, `Answers.climb`,
`Answers.pairs`): it asks for no others. As in `Lookahead`, two parsers are compared that do not take the same steps
to the end, the one with a bound and the other without.
-/
import MonkeyLang.Proofs.Parse.Rules

namespace MonkeyLang

namespace Parser

variable {α β : Type}

/-! ## Goals -/

/-- What reading comes back to: the loops over the statements of a program and of a block, a statement, an
expression, and the loops inside of expressions. -/
inductive Goal where
  | program
  | block
  | statement
  | expr (p : Precedence)
  | climb (p : Precedence) (left : Expr)
  | pairs
  | moreExprs
  | moreParams

namespace Goal

@[reducible] def Result : Goal → Type
  | program | block => List Stmt
  | statement => Stmt
  | expr _ | climb .. => Expr
  | pairs => List (Expr × Expr)
  | moreExprs => List Expr
  | moreParams => List String

/-- The second goal is a further turn of the loop that the first one is a turn of. -/
def Repeats : Goal → Goal → Prop
  | program, program | block, block | pairs, pairs | moreExprs, moreExprs | moreParams, moreParams => True
  | climb p _, climb q _ => p = q
  | _, _ => False

/-- An expression or a statement. -/
def IsPhrase : Goal → Prop
  | statement | expr _ => True
  | _ => False

/-- The weight of a goal with `u` unread tokens. A statement may begin with an expression, and an expression with an
operand that a loop goes on from, at the same token. The loop over pairs begins one token ahead. -/
def weight : Goal → Nat → Nat
  | climb .., u | moreExprs, u | moreParams, u => 4 * u
  | pairs, u => 4 * (u - 1) + 2
  | expr _, u => 4 * u + 1
  | statement, u => 4 * u + 2
  | program, u | block, u => 4 * u + 3

theorem weight_mono (t : Goal) {u v : Nat} (h : u ≤ v) : t.weight u ≤ t.weight v := by
  cases t <;> simp only [weight] <;> omega

theorem lt_of_weight_lt_of_repeats {t t' : Goal} (h : t.Repeats t') {u v : Nat} (hw : t'.weight v < t.weight u) :
    v < u := by
  cases t <;> cases t' <;> first | exact h.elim | (simp only [weight] at hw; omega)

theorem lt_of_weight_lt_of_isPhrase {p : Precedence} {t : Goal} (h : t.IsPhrase) {u v : Nat}
    (hw : t.weight v < (expr p).weight u) : v < u := by
  cases t <;> first | exact h.elim | (simp only [weight] at hw; omega)

end Goal

/-! ## Rules without bounds -/

/-- An answer to each goal. -/
abbrev Readers := (t : Goal) → Parser t.Result

namespace Readers

/-- One turn of a loop over statements. -/
def turn (r : Readers) (stops : Token.Kind → Bool) (again : Parser (List Stmt)) : Parser (List Stmt) := do
  if stops (← current).kind then
    return []
  else
    let s ← attempt (r .statement)
    advance
    let ss ← again
    return s.toList ++ ss

def block (r : Readers) : Parser (List Stmt) := do
  advance
  r .block

/-- One turn of a loop over items that are each introduced by a comma. -/
def more (item : Parser α) (again : Parser (List α)) : Parser (List α) := do
  if ← nextIs .comma then
    advance
    let a ← item
    let as ← again
    return a :: as
  else
    return []

def items (item : Parser α) (again : Parser (List α)) (close : Token.Kind) : Parser (List α) := do
  if ← nextIs close then
    advance
    return []
  else
    let a ← item
    let as ← again
    expect close
    return a :: as

def expr (r : Readers) (p : Precedence) : Parser Expr := r (.expr p)

def conditional (r : Readers) : Parser Expr := do
  expect .leftParen
  advance
  let condition ← r.expr .lowest
  expect .rightParen
  expect .leftBrace
  let consequence ← r.block
  if ← nextIs .elseWord then
    advance
    expect .leftBrace
    let alternative ← r.block
    return .cond condition consequence (some alternative)
  else
    return .cond condition consequence none

def function (r : Readers) : Parser Expr := do
  expect .leftParen
  let params ← items param (r .moreParams) .rightParen
  expect .leftBrace
  let body ← r.block
  return .function params body

def array (r : Readers) : Parser Expr := do
  let elements ← items (nextExpr r.expr) (r .moreExprs) .rightBracket
  return .array elements

def hash (r : Readers) : Parser Expr := do
  let ps ← r .pairs
  expect .rightBrace
  return .hash ps

def operand (r : Readers) : Parser Expr := do
  let t ← current
  match t.kind with
  | .ident => return .ident t.literal
  | .int => integer
  | .string => return .string t.literal
  | .trueWord => return .bool true
  | .falseWord => return .bool false
  | .bang => unary r.expr .not
  | .minus => unary r.expr .neg
  | .leftParen => grouped r.expr
  | .ifWord => r.conditional
  | .functionWord => r.function
  | .leftBracket => r.array
  | .leftBrace => r.hash
  | _ => noOperand

def continued (r : Readers) (left : Expr) : Continuation → Parser Expr
  | .operator op => do
    advance
    let right ← r.expr op.precedence
    return .binary op left right
  | .call => do
    let arguments ← items (nextExpr r.expr) (r .moreExprs) .rightParen
    return .call left arguments
  | .index => do
    let key ← nextExpr r.expr
    expect .rightBracket
    return .index left key

/-- Each goal, with the goals that it asks for left to `r`. -/
def unfold (r : Readers) : Readers
  | .program => r.turn (· == .endOfInput) (r .program)
  | .block => r.turn endsBlock (r .block)
  | .statement => statement r.expr
  | .expr p => do
    let left ← r.operand
    r (.climb p left)
  | .climb p left => do
    match Continuation.ofKind? (← peek).kind with
    | none => return left
    | some k =>
      if p < k.precedence then
        advance
        let left ← r.continued left k
        r (.climb p left)
      else
        return left
  | .pairs => do
    if ← nextIs .rightBrace then
      return []
    else
      let p ← pair r.expr
      if !(← nextIs .rightBrace) then
        expect .comma
      let ps ← r .pairs
      return p :: ps
  | .moreExprs => more (nextExpr r.expr) (r .moreExprs)
  | .moreParams => more param (r .moreParams)

end Readers

/-! ## Bounds that are enough -/

/-- A rule of the grammar for a goal, with bounds that are enough for `u` unread tokens. -/
inductive Suffices (u : Nat) : (t : Goal) → Parser t.Result → Prop where
  | program {n m : Nat} (hn : u ≤ n) (hm : u ≤ m) :
    Suffices u .program (statements (expr n) (· == .endOfInput) m)
  | block {n m : Nat} (hn : u ≤ n) (hm : u ≤ m) : Suffices u .block (statements (expr n) endsBlock m)
  | statement {n : Nat} (hn : u ≤ n) : Suffices u .statement (statement (expr n))
  | expr {n : Nat} (p : Precedence) (hn : u ≤ n) : Suffices u (.expr p) (expr n p)
  | climb {n m : Nat} (p : Precedence) (left : Expr) (hn : u ≤ n + 1) (hm : u ≤ m) :
    Suffices u (.climb p left) (climb (expr n) p m left)
  | pairs {n m : Nat} (hn : u ≤ n + 1) (hm : u ≤ m) : Suffices u .pairs (pairs (expr n) m)
  | moreExprs {n m : Nat} (hn : u ≤ n + 1) (hm : u ≤ m) :
    Suffices u .moreExprs (moreItems (nextExpr (expr n)) m)
  | moreParams {m : Nat} (hm : u ≤ m) : Suffices u .moreParams (moreItems param m)

/-- The rules with a bound taken from the cursor. -/
def bounded : Readers
  | .program => wholeProgram
  | .block => unread >>= fun n => statements (expr n) endsBlock n
  | .statement => unread >>= fun n => statement (expr n)
  | .expr p => unread >>= fun n => expr n p
  | .climb p left => unread >>= fun n => climb (expr n) p n left
  | .pairs => unread >>= fun n => pairs (expr n) n
  | .moreExprs => unread >>= fun n => moreItems (nextExpr (expr n)) n
  | .moreParams => unread >>= fun n => moreItems param n

theorem exists_suffices (t : Goal) (c : Cursor) : ∃ q, Suffices c.unread t q ∧ (bounded t).run c = q.run c := by
  cases t with
  | program => exact ⟨_, .program (Nat.le_refl _) (Nat.le_refl _), rfl⟩
  | block => exact ⟨_, .block (Nat.le_refl _) (Nat.le_refl _), rfl⟩
  | statement => exact ⟨_, .statement (Nat.le_refl _), rfl⟩
  | expr p => exact ⟨_, .expr p (Nat.le_refl _), rfl⟩
  | climb p left => exact ⟨_, .climb p left (Nat.le_succ _) (Nat.le_refl _), rfl⟩
  | pairs => exact ⟨_, .pairs (Nat.le_succ _) (Nat.le_refl _), rfl⟩
  | moreExprs => exact ⟨_, .moreExprs (Nat.le_succ _) (Nat.le_refl _), rfl⟩
  | moreParams => exact ⟨_, .moreParams (Nat.le_refl _), rfl⟩

/-! ## Reading alike -/

/-- From at most `u` unread tokens, both parsers do the same. -/
def Alike (u : Nat) (p q : Parser α) : Prop :=
  ∀ c : Cursor, c.last.kind = .endOfInput → c.unread ≤ u → p.run c = q.run c

section Alike

variable {u : Nat} {p q : Parser α} {f g : α → Parser β}

theorem Alike.refl (p : Parser α) : Alike u p p := fun _ _ _ => rfl

theorem Alike.trans {q' : Parser α} (h : Alike u p q) (h' : Alike u q q') : Alike u p q' :=
  fun c hc hu => (h c hc hu).trans (h' c hc hu)

theorem Alike.mono {v : Nat} (h : Alike u p q) (hv : v ≤ u) : Alike v p q :=
  fun c hc hu => h c hc (Nat.le_trans hu hv)

/-- What comes second begins with the tokens that what came first has left. -/
theorem Alike.bind_le [hq : Lawful q] {v : Nat} (h : Alike u p q) (hv : ∀ c, c.unread ≤ u → (q.run c).2.unread ≤ v)
    (hf : ∀ a, Alike v (f a) (g a)) : Alike u (p >>= f) (q >>= g) := by
  intro c hc hu
  have hle := hv c hu
  have hlast : (q.run c).2.last.kind = .endOfInput := by rw [hq.last_eq, hc]
  rw [run_bind, run_bind, h c hc hu]
  generalize q.run c = x at hle hlast
  obtain ⟨_ | a, c'⟩ := x
  · rfl
  · exact hf a c' hlast hle

theorem Alike.bind [hq : Lawful q] (h : Alike u p q) (hf : ∀ a, Alike u (f a) (g a)) : Alike u (p >>= f) (q >>= g) :=
  h.bind_le (fun c hu => Nat.le_trans (hq.moves_on c).length_le hu) hf

/-- What would come after a parser that gives up makes no difference. -/
theorem Alike.bind_of_none (h : Alike u p q)
    (hq : ∀ c : Cursor, c.last.kind = .endOfInput → c.unread ≤ u → (q.run c).1 = none) :
    Alike u (p >>= f) (q >>= g) := by
  intro c hc hu
  have hnone := hq c hc hu
  rw [run_bind, run_bind, h c hc hu]
  generalize q.run c = x at hnone
  obtain ⟨_ | a, c'⟩ := x
  · rfl
  · cases hnone

theorem Alike.bind_noOperand {p : Parser α} (h : Alike u p noOperand) : Alike u (p >>= f) noOperand :=
  h.bind_of_none (g := fun _ => noOperand) fun _ _ _ => rfl

theorem alike_ite {b : Prop} [Decidable b] {p' q' : Parser α} (h : Alike u p q) (h' : Alike u p' q') :
    Alike u (if b then p else p') (if b then q else q') := by
  split
  · exact h
  · exact h'

theorem alike_attempt (h : Alike u p q) : Alike u (attempt p) (attempt q) := by
  intro c hc hu
  show ((some (p.run c).1, (p.run c).2) : Option (Option α) × Cursor) = (some (q.run c).1, (q.run c).2)
  rw [h c hc hu]

theorem alike_advance {p q : Unit → Parser α} (h : Alike (u - 1) (p ()) (q ())) :
    Alike u (advance >>= p) (advance >>= q) := by
  intro c hc hu
  refine h c.advance hc ?_
  rw [Cursor.unread_advance]
  omega

/-- With no token left, the current token is the one for the end. -/
theorem alike_current {f g : Token → Parser β} (h : ∀ t, (u = 0 → t.kind = .endOfInput) → Alike u (f t) (g t)) :
    Alike u (current >>= f) (current >>= g) := by
  intro c hc hu
  refine h c.current (fun h0 => ?_) c hc hu
  rw [Cursor.current_eq_last (by omega), hc]

/-- With no token left, so is the next one. -/
theorem alike_peek {f g : Token → Parser β} (h : ∀ t, (u = 0 → t.kind = .endOfInput) → Alike u (f t) (g t)) :
    Alike u (peek >>= f) (peek >>= g) := by
  intro c hc hu
  refine h c.peek (fun h0 => ?_) c hc hu
  rw [Cursor.peek_eq_last (by omega), hc]

theorem alike_nextIs {k : Token.Kind} {f g : Bool → Parser β}
    (hyes : (u = 0 → k = .endOfInput) → Alike u (f true) (g true)) (hno : Alike u (f false) (g false)) :
    Alike u (nextIs k >>= f) (nextIs k >>= g) := by
  show Alike u (peek >>= fun t => f (t.kind == k)) (peek >>= fun t => g (t.kind == k))
  refine alike_peek fun t ht => ?_
  by_cases hk : t.kind = k
  · rw [beq_iff_eq.2 hk]
    exact hyes fun h0 => hk ▸ ht h0
  · rw [beq_eq_false_iff_ne.2 hk]
    exact hno

/-- A loop is bounded by the number of tokens that it begins with. -/
theorem alike_unread {q : Nat → Parser α} {g : α → Parser β} [∀ n, Lawful (q n)]
    (h : ∀ n ≤ u, Alike n p (q n)) (hf : ∀ a, Alike u (f a) (g a)) :
    Alike u (p >>= f) (unread >>= fun n => q n >>= g) := by
  intro c hc hu
  have hfn : ∀ a, Alike c.unread (f a) (g a) := fun a => (hf a).mono hu
  exact (h c.unread hu).bind hfn c hc (Nat.le_refl _)

end Alike

/-! ## Rules -/

/-- The goals of weight below `w` are answered as by the rules of the grammar. -/
def Answers (r : Readers) (w : Nat) : Prop := ∀ ⦃t q u⦄, Suffices u t q → t.weight u < w → Alike u (r t) q

section Rules

variable {u : Nat}

/-- A list up to its closing token, with the further items as a goal. -/
theorem alike_items {item item' : Parser α} [Lawful item'] {again : Parser (List α)} (close : Token.Kind)
    (hitem : Alike u item item') (hagain : ∀ n ≤ u, Alike n again (moreItems item' n)) :
    Alike u (Readers.items item again close) (items item' close) := by
  refine Alike.bind (.refl _) fun b => alike_ite (.refl _) (hitem.bind fun a => ?_)
  exact alike_unread hagain fun as => .refl _

/-- One turn of a list, and what is left of it. -/
theorem alike_more {item item' : Parser α} [Lawful item'] {again : Parser (List α)} {m : Nat} (hm : u ≤ m)
    (hitem : u ≠ 0 → Alike (u - 1) item item') (hagain : ∀ v n, v < u → v ≤ n → Alike v again (moreItems item' n)) :
    Alike u (Readers.more item again) (moreItems item' m) := by
  cases m with
  | zero =>
    show Alike u _ (nextIs .comma >>= fun _ => pure [])
    exact alike_nextIs (fun h => nomatch h (by omega)) (.refl _)
  | succ m =>
    refine alike_nextIs (fun h => ?_) (.refl _)
    have hu : u ≠ 0 := fun h0 => nomatch h h0
    refine alike_advance ((hitem hu).bind fun a => ?_)
    exact (hagain (u - 1) m (by omega) (by omega)).bind fun as => .refl _

section Expr

variable {expr expr' : Precedence → Parser Expr} [∀ p, Lawful (expr' p)]

omit [∀ p, Lawful (expr' p)] in
theorem alike_nextExpr (h : ∀ p, Alike (u - 1) (expr p) (expr' p)) : Alike u (nextExpr expr) (nextExpr expr') :=
  alike_advance (h .lowest)

theorem alike_unary (op : UnaryOp) (h : ∀ p, Alike (u - 1) (expr p) (expr' p)) :
    Alike u (unary expr op) (unary expr' op) :=
  alike_advance ((h .unary).bind fun _ => .refl _)

theorem alike_grouped (h : ∀ p, Alike (u - 1) (expr p) (expr' p)) : Alike u (grouped expr) (grouped expr') :=
  alike_advance ((h .lowest).bind fun _ => .refl _)

theorem alike_pair (h : ∀ p, Alike (u - 1) (expr p) (expr' p)) : Alike u (pair expr) (pair expr') := by
  refine (alike_nextExpr h).bind fun k => Alike.bind (.refl _) fun _ => ?_
  exact (alike_nextExpr h).bind fun v => .refl _

theorem alike_statement (h : ∀ p, Alike u (expr p) (expr' p)) : Alike u (statement expr) (statement expr') := by
  refine Alike.bind (.refl _) fun t => ?_
  have hnext : ∀ p, Alike (u - 1) (expr p) (expr' p) := fun p => (h p).mono (Nat.sub_le u 1)
  split
  · refine Alike.bind (.refl _) fun _ => Alike.bind (.refl _) fun name => Alike.bind (.refl _) fun _ => ?_
    exact alike_advance ((hnext .lowest).bind fun e => .refl _)
  · exact alike_advance ((alike_attempt (hnext .lowest)).bind fun e => .refl _)
  · exact (h .lowest).bind fun e => .refl _

end Expr

variable {r : Readers} {w n m : Nat} (hr : Answers r w)

include hr

theorem Answers.expr (hn : u ≤ n) (hw : 4 * u + 1 < w) (p : Precedence) : Alike u (r.expr p) (Parser.expr n p) :=
  hr (.expr p hn) hw

theorem Answers.turn (stops : Token.Kind → Bool) (hstops : stops .endOfInput = true) {again : Parser (List Stmt)}
    (hn : u ≤ n) (hm : u ≤ m) (hw : 4 * u + 2 < w)
    (hagain : ∀ v k, v < u → v ≤ k → Alike v again (statements (Parser.expr n) stops k)) :
    Alike u (r.turn stops again) (statements (Parser.expr n) stops m) := by
  cases m with
  | zero =>
    show Alike u _ (current >>= fun _ => pure [])
    refine alike_current fun t ht => ?_
    rw [ht (by omega), if_pos hstops]
    exact .refl _
  | succ m =>
    refine alike_current fun t ht => ?_
    by_cases hs : stops t.kind = true
    · rw [if_pos hs, if_pos hs]
      exact .refl _
    · -- the turn takes the current token, so there is one
      have hu : u ≠ 0 := fun h0 => hs (ht h0 ▸ hstops)
      rw [if_neg hs, if_neg hs]
      refine (alike_attempt (hr (.statement hn) hw)).bind fun s => alike_advance ?_
      exact (hagain (u - 1) m (by omega) (by omega)).bind fun ss => .refl _

theorem Answers.block (hn : u ≤ n + 1) (hw : 4 * u < w) (hu : u ≠ 0) : Alike u r.block (Parser.block (Parser.expr n)) := by
  refine alike_advance ?_
  intro c hc hcu
  exact hr (.block (by omega) (Nat.le_refl _)) (by simp only [Goal.weight]; omega) c hc (Nat.le_refl _)

theorem Answers.conditional (hn : u ≤ n + 1) (hw : 4 * u < w) (hu : u ≠ 0) :
    Alike u r.conditional (Parser.conditional (Parser.expr n)) := by
  have hblock : ∀ v ≤ u, Alike v r.block (Parser.block (Parser.expr n)) := fun v hv => (hr.block hn hw hu).mono hv
  refine Alike.bind (.refl _) fun _ => alike_advance ((hr.expr (by omega) (by omega) .lowest).bind fun c => ?_)
  refine Alike.bind (.refl _) fun _ => Alike.bind (.refl _) fun _ => (hblock _ (by omega)).bind fun yes => ?_
  refine Alike.bind (.refl _) fun b => alike_ite (alike_advance ?_) (.refl _)
  exact Alike.bind (.refl _) fun _ => (hblock _ (by omega)).bind fun no => .refl _

theorem Answers.function (hn : u ≤ n + 1) (hw : 4 * u < w) (hu : u ≠ 0) :
    Alike u r.function (Parser.function (Parser.expr n)) := by
  have hparams : ∀ k ≤ u, Alike k (r .moreParams) (moreItems param k) := fun k hk =>
    hr (.moreParams (Nat.le_refl k)) (by simp only [Goal.weight]; omega)
  refine Alike.bind (.refl _) fun _ => (alike_items .rightParen (.refl _) hparams).bind fun ps => ?_
  exact Alike.bind (.refl _) fun _ => (hr.block hn hw hu).bind fun body => .refl _

theorem Answers.list (close : Token.Kind) (hn : u ≤ n + 1) (hw : 4 * u < w) (hu : u ≠ 0) :
    Alike u (Readers.items (nextExpr r.expr) (r .moreExprs) close) (items (nextExpr (Parser.expr n)) close) :=
  alike_items close (alike_nextExpr fun p => hr.expr (by omega) (by omega) p) fun k hk =>
    hr (.moreExprs (by omega) (Nat.le_refl k)) (by simp only [Goal.weight]; omega)

theorem Answers.hash (hn : u ≤ n + 1) (hw : 4 * u < w) (hu : u ≠ 0) :
    Alike u r.hash (Parser.hash (Parser.expr n)) :=
  alike_unread (fun k hk => hr (.pairs (by omega) (Nat.le_refl k)) (by simp only [Goal.weight]; omega))
    fun ps => .refl _

/-- Where a further expression comes in, the current token is not the one for the end. -/
theorem Answers.operand (hn : u ≤ n + 1) (hw : 4 * u < w) : Alike u r.operand (Parser.operand (Parser.expr n)) := by
  refine alike_current fun t ht => ?_
  have hpos : t.kind ≠ .endOfInput → u ≠ 0 := fun hk h0 => hk (ht h0)
  have hexpr : u ≠ 0 → ∀ p, Alike (u - 1) (r.expr p) (Parser.expr n p) := fun hu => hr.expr (by omega) (by omega)
  revert hpos
  generalize t.kind = k
  intro hpos
  cases k with
  | bang => exact alike_unary .not (hexpr (hpos nofun))
  | minus => exact alike_unary .neg (hexpr (hpos nofun))
  | leftParen => exact alike_grouped (hexpr (hpos nofun))
  | ifWord => exact hr.conditional hn hw (hpos nofun)
  | functionWord => exact hr.function hn hw (hpos nofun)
  | leftBracket => exact (hr.list .rightBracket hn hw (hpos nofun)).bind fun _ => .refl _
  | leftBrace => exact hr.hash hn hw (hpos nofun)
  | _ => exact .refl _

theorem Answers.continued (left : Expr) (k : Continuation) (hn : u ≤ n) (hw : 4 * u + 1 < w) :
    Alike u (r.continued left k) (Parser.continued (Parser.expr n) left k) := by
  have hexpr : ∀ p, Alike (u - 1) (r.expr p) (Parser.expr n p) := hr.expr (by omega) (by omega)
  cases k with
  | operator op => exact alike_advance ((hexpr op.precedence).bind fun e => .refl _)
  | call =>
    refine (alike_items .rightParen (alike_nextExpr hexpr) fun k hk => ?_).bind fun es => .refl _
    exact hr (.moreExprs (by omega) (Nat.le_refl k)) (by simp only [Goal.weight]; omega)
  | index => exact (alike_nextExpr hexpr).bind fun e => .refl _

theorem Answers.climb (p : Precedence) (left : Expr) (hn : u ≤ n + 1) (hm : u ≤ m) (hw : 4 * u ≤ w) :
    Alike u (r.unfold (.climb p left)) (Parser.climb (Parser.expr n) p m left) := by
  cases m with
  | zero =>
    show Alike u _ (peek >>= fun _ => pure left)
    refine alike_peek fun t ht => ?_
    rw [ht (by omega)]
    exact .refl _
  | succ m =>
    refine alike_peek fun t ht => ?_
    cases hk : Continuation.ofKind? t.kind with
    | none => exact .refl _
    | some k =>
      -- the turn takes the next token, so there is one
      have hu : u ≠ 0 := fun h0 => by rw [ht h0] at hk; cases hk
      refine alike_ite (alike_advance ?_) (.refl _)
      refine (hr.continued left k (by omega) (by omega)).bind fun l => ?_
      exact hr (.climb p l (by omega) (by omega)) (by simp only [Goal.weight]; omega)

end Rules

/-! ## Where no token is left -/

theorem alike_operand_zero (expr : Precedence → Parser Expr) : Alike 0 (operand expr) noOperand := by
  show Alike 0 _ (current >>= fun _ => noOperand)
  refine alike_current fun t ht => ?_
  rw [ht rfl]
  exact .refl _

theorem alike_expr_zero (n : Nat) (p : Precedence) : Alike 0 (expr n p) noOperand := by
  cases n with
  | zero => exact .refl _
  | succ n => exact (alike_operand_zero (expr n)).bind_noOperand

section Pairs

variable {expr : Precedence → Parser Expr} (h : Alike 0 (expr .lowest) noOperand)

include h

/-- No pair begins behind the last token. -/
theorem alike_pair_one : Alike 1 (pair expr) (advance >>= fun _ => noOperand) :=
  Alike.bind_of_none (q := advance >>= fun _ => noOperand) (g := fun _ => noOperand) (alike_advance h) fun _ _ _ => rfl

theorem alike_pair_zero : Alike 0 (pair expr) noOperand := by
  refine ((alike_pair_one h).mono (Nat.zero_le 1)).trans fun c hc hu => ?_
  show (noOperand : Parser (Expr × Expr)).run c.advance = noOperand.run c
  rw [Cursor.advance_eq_self (Nat.le_zero.1 hu)]

end Pairs

theorem unread_run_pair_le (expr : Precedence → Parser Expr) [∀ p, Lawful (expr p)] (c : Cursor) :
    ((pair expr).run c).2.unread ≤ c.unread - 1 := by
  let rest : Parser (Expr × Expr) := do
    let key ← expr .lowest
    expect .colon
    let value ← nextExpr expr
    return (key, value)
  have hrest : Lawful rest := inferInstance
  rw [← Cursor.unread_advance]
  exact (hrest.moves_on c.advance).length_le

theorem Answers.pairs {u w n m : Nat} {r : Readers} (hr : Answers r w) (hn : u ≤ n + 1) (hm : u ≤ m)
    (hw : 4 * (u - 1) + 2 ≤ w) : Alike u (r.unfold .pairs) (Parser.pairs (Parser.expr n) m) := by
  have hexpr : ∀ p, Alike (u - 1) (r.expr p) (Parser.expr n p) := hr.expr (by omega) (by omega)
  have hzero : Alike 0 (r.expr .lowest) noOperand :=
    ((hexpr .lowest).mono (Nat.zero_le _)).trans (alike_expr_zero n .lowest)
  cases m with
  | zero =>
    obtain rfl : u = 0 := by omega
    show Alike 0 _ (nextIs .rightBrace >>= fun _ => noOperand)
    exact alike_nextIs (fun h => nomatch h rfl) (alike_pair_zero hzero).bind_noOperand
  | succ m =>
    refine alike_nextIs (fun _ => .refl _) ?_
    by_cases hu : u ≤ 1
    · refine (alike_pair hexpr).bind_of_none fun c hc hcu => ?_
      rw [alike_pair_one (alike_expr_zero n .lowest) c hc (Nat.le_trans hcu hu)]
      rfl
    · -- a pair takes a token, and the next turn begins behind it
      refine (alike_pair hexpr).bind_le (v := u - 1) (fun c hcu => ?_) fun p => ?_
      · have := unread_run_pair_le (Parser.expr n) c
        omega
      · have hagain : Alike (u - 1) (r .pairs) (Parser.pairs (Parser.expr n) m) :=
          hr (.pairs (by omega) (by omega)) (by simp only [Goal.weight]; omega)
        have hrest : Alike (u - 1) (r .pairs >>= fun ps => pure (p :: ps))
            (Parser.pairs (Parser.expr n) m >>= fun ps => pure (p :: ps)) := hagain.bind fun ps => .refl _
        exact Alike.bind (.refl _) fun b => alike_ite (Alike.bind (.refl _) fun _ => hrest) hrest

end Parser

end MonkeyLang
