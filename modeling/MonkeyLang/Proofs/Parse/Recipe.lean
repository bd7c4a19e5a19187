/-
The steps that the rules of the grammar are made of, said once. A `Recipe` for a rule lists its steps in the order in
which it reads: at which `Place` it begins and at which `Stage` it ends, what it looks at, where it moves on, where it
gives up, where a failure is absorbed, and which leaves it has at hand. `Recipe.wholeProgram` is the recipe for a whole
program. What holds of every step holds of every rule, by one induction on recipes and not by going through the rules
again.
-/
import MonkeyLang.Proofs.Parse.Clean
import MonkeyLang.Proofs.Program.Leaves
import Mathlib.Data.List.Perm.Subperm

namespace MonkeyLang.Parser

/-- How far a rule has come. -/
inductive Stage where
  /-- Where an expression or a statement begins. -/
  | start
  /-- In the middle of a rule. -/
  | inside
  /-- Behind a statement, before the cursor moves on. -/
  | settled
  /-- Where a rule has given up. -/
  | stuck
  /-- Where a loop over statements goes on. -/
  | turn

/-- Where a rule has come to the first stage, it may go on as if it had come to the second one only. -/
inductive Stage.Within : Stage → Stage → Prop where
  | inside_start : Within .inside .start
  | inside_settled : Within .inside .settled
  | stuck_settled : Within .stuck .settled
  | turn_start : Within .turn .start
  | turn_inside : Within .turn .inside

/-- Where a rule stands: its stage, with or without the token that it has in view there. -/
inductive Place where
  | plain (x : Stage)
  /-- Something begins, at the token `t`. -/
  | current (t : Token)
  /-- In the middle of a rule, before the token `t`. -/
  | next (t : Token)

namespace Place

abbrev start : Place := plain .start

abbrev inside : Place := plain .inside

abbrev settled : Place := plain .settled

abbrev stuck : Place := plain .stuck

abbrev turn : Place := plain .turn

def stage : Place → Stage
  | plain x => x
  | current _ => .start
  | next _ => .inside

/-- The token in view is the one that the cursor has there. -/
def Fits : Place → Cursor → Prop
  | plain _, _ => True
  | current t, c => c.current = t
  | next t, c => c.peek = t

end Place

/-- The steps of a rule that begins at the place `x` with the leaves `had` at hand, and that comes to the stage `y` with
the leaves `N` of what it yields. -/
inductive Recipe : Place → List Leaf → {α : Type} → Parser α → (α → List Leaf) → Stage → Type 1 where
  -- putting steps together
  | pure {α : Type} {N : α → List Leaf} {y : Stage} {had : List Leaf} {a : α} (h : (N a).Subperm had) :
    Recipe (.plain y) had (pure a) N y
  | seq {α β : Type} {p : Parser α} {f : α → Parser β} {N : α → List Leaf} {M : β → List Leaf} {x : Place} {y z : Stage}
    {had : List Leaf} (r : Recipe x had p N y) (s : ∀ a, Recipe (.plain y) (N a) (f a) M z) : Recipe x had (p >>= f) M z
  /-- What was at hand before stays at hand. -/
  | keep {α : Type} {p : Parser α} {N : α → List Leaf} {x : Place} {y : Stage} {had : List Leaf}
    (r : Recipe x [] p N y) : Recipe x had p (fun a => N a ++ had) y
  | forget {α : Type} {p : Parser α} {N : α → List Leaf} {x : Place} {y : Stage} {had had' : List Leaf}
    (h : had'.Subperm had) (r : Recipe x had' p N y) : Recipe x had p N y
  | weaken {α : Type} {p : Parser α} {N : α → List Leaf} {x x' y : Stage} {had : List Leaf} (h : x.Within x')
    (r : Recipe (.plain x') had p N y) : Recipe (.plain x) had p N y
  -- looking ahead
  /-- There is a current token. -/
  | see {α : Type} {p : Parser α} {N : α → List Leaf} {y : Stage} {had : List Leaf}
    (r : ∀ t, Recipe (.current t) had p N y) : Recipe .start had p N y
  /-- There is a next token. -/
  | foresee {α : Type} {p : Parser α} {N : α → List Leaf} {y : Stage} {had : List Leaf}
    (r : ∀ t, Recipe (.next t) had p N y) : Recipe .inside had p N y
  | unsee {α : Type} {p : Parser α} {N : α → List Leaf} {x : Place} {y : Stage} {had : List Leaf}
    (r : Recipe (.plain x.stage) had p N y) : Recipe x had p N y
  /-- A token other than a semicolon is taken, and the rule is under way. -/
  | begun {α : Type} {p : Parser α} {N : α → List Leaf} {y : Stage} {had : List Leaf} {t : Token}
    (h : t.kind ≠ .semicolon) (r : Recipe .inside had p N y) : Recipe (.current t) had p N y
  /-- The current token has its leaf to offer. Where it stands plays no part. -/
  | current {α : Type} {f : Token → Parser α} {N : α → List Leaf} {y : Stage} {had : List Leaf} {t : Token}
    (h : ∀ s, f { t with span := s } = f t) (r : Recipe (.current t) (t.leaves ++ had) (f t) N y) :
    Recipe (.current t) had (current >>= f) N y
  | peek {α : Type} {f : Token → Parser α} {N : α → List Leaf} {y : Stage} {had : List Leaf} {t : Token}
    (h : ∀ s, f { t with span := s } = f t) (r : Recipe (.next t) had (f t) N y) :
    Recipe (.next t) had (peek >>= f) N y
  | nextIs {α : Type} {k : Token.Kind} {f : Bool → Parser α} {N : α → List Leaf} {y : Stage} {had : List Leaf}
    {t : Token} (r : Recipe (.next t) had (f (t.kind == k)) N y) : Recipe (.next t) had (nextIs k >>= f) N y
  | unread {α : Type} {f : Nat → Parser α} {N : α → List Leaf} {x : Place} {y : Stage} {had : List Leaf}
    (r : ∀ n, Recipe x had (f n) N y) : Recipe x had (unread >>= f) N y
  | look {α : Type} {f : Token → Parser α} {N : α → List Leaf} {y : Stage} {had : List Leaf}
    (h : ∀ t s, f { t with span := s } = f t) (r : ∀ t, Recipe .turn had (f t) N y) :
    Recipe .turn had (current >>= f) N y
  -- moving on
  /-- Moving on, the next token becomes the current one. -/
  | advance {α : Type} {p : Parser α} {N : α → List Leaf} {y : Stage} {had : List Leaf} {t : Token}
    (r : Recipe (.current t) had p N y) : Recipe (.next t) had (advance >>= fun _ => p) N y
  | expect {α : Type} {k : Token.Kind} {p : Parser α} {N : α → List Leaf} {y : Stage} {had : List Leaf}
    (r : ∀ t, t.kind = k → Recipe (.current t) had p N y) : Recipe .inside had (expect k >>= fun _ => p) N y
  /-- Behind a brace come the statements of a block. -/
  | enter {α : Type} {p : Parser α} {N : α → List Leaf} {y : Stage} {had : List Leaf} {t : Token}
    (hk : t.kind = .leftBrace) (r : Recipe .turn had p N y) : Recipe (.current t) had (advance >>= fun _ => p) N y
  | skip {had : List Leaf} : Recipe .settled had skipSemicolon (fun _ => had) .settled
  -- giving up
  | noOperand {α : Type} {N : α → List Leaf} {y : Stage} {had : List Leaf} : Recipe .start had noOperand N y
  | tooLarge {α : Type} {N : α → List Leaf} {y : Stage} {had : List Leaf} {t : Token} (hk : t.kind = .int)
    (hn : ¬ Text.numeral t.literal.toList < Text.integerLimit) :
    Recipe (.current t) had (fail fun t => .integerTooLarge t.literal) N y
  -- going on behind a failure
  /-- A value that cannot be read is left out, and its return is without one. -/
  | value {α β : Type} {p : Parser α} {f : Option α → Parser β} {N : α → List Leaf} {M : β → List Leaf} {x : Place}
    {y : Stage} {had : List Leaf} (r : Recipe x [] p N .inside) (s : ∀ a, Recipe .inside (N a ++ had) (f (some a)) M y)
    (s' : Recipe .stuck (.bareReturn :: had) (f none) M y) : Recipe x had (attempt p >>= f) M y
  /-- A statement that cannot be read is left out. Behind it, read or not, the cursor moves on. -/
  | turn {α β : Type} {p : Parser α} {f : Option α → Parser β} {N : α → List Leaf} {M : β → List Leaf} {y : Stage}
    {had : List Leaf} (r : Recipe .start [] p N .settled) (s : ∀ a, Recipe .turn (N a ++ had) (f (some a)) M y)
    (s' : Recipe .turn had (f none) M y) : Recipe .turn had (attempt p >>= fun o => advance >>= fun _ => f o) M y

namespace Recipe

variable {α β : Type} {p q : Parser α} {f : α → Parser β} {N : α → List Leaf} {M : β → List Leaf} {x : Place}
  {y z : Stage} {had : List Leaf} {k : Token.Kind}

/-! ## Steps together -/

def bind (r : Recipe x [] p N y) (s : ∀ a, Recipe (.plain y) (N a ++ had) (f a) M z) : Recipe x had (p >>= f) M z :=
  r.keep.seq s

/-- What is yielded has leaves that were at hand. -/
def ret {a : α} (h : ∀ l, (N a).count l ≤ had.count l) : Recipe (.plain y) had (Pure.pure a) N y :=
  .pure (List.subperm_ext_iff.2 fun l _ => h l)

def ite {b : Prop} [inst : Decidable b] (r : b → Recipe x had p N y) (s : ¬ b → Recipe x had q N y) :
    Recipe x had (if b then p else q) N y :=
  match inst with
  | .isTrue h => r h
  | .isFalse h => s h

def go (r : Recipe .start had p N y) : Recipe .inside had (Parser.advance >>= fun _ => p) N y :=
  .foresee fun _ => .advance (.unsee r)

def ask {f : Bool → Parser α} (r : ∀ b, Recipe .inside had (f b) N y) :
    Recipe .inside had (Parser.nextIs k >>= f) N y :=
  .foresee fun _ => .nextIs (.unsee (r _))

/-- A token other than a semicolon that may come next. -/
def take (hk : k ≠ .semicolon) (r : Recipe .inside had p N y) (s : Recipe .inside had q N y) :
    Recipe .inside had (Parser.nextIs k >>= fun b => if b = true then Parser.advance >>= fun _ => p else q) N y :=
  .foresee fun _ => .nextIs (.ite (fun h => .advance (.begun (beq_iff_eq.1 h ▸ hk) r)) fun _ => .unsee s)

/-- A token other than a semicolon that has to come next. -/
def need (hk : k ≠ .semicolon) (r : Recipe .inside had p N y) :
    Recipe .inside had (Parser.expect k >>= fun _ => p) N y :=
  .expect fun _ ht => .begun (ht ▸ hk) r

/-- A name is what an identifier says. -/
def name {f : Token → Parser α} (h : ∀ t s, f { t with span := s } = f t)
    (r : ∀ t, Recipe .inside (.name t.literal :: had) (f t) N y) :
    Recipe .inside had (Parser.expect .ident >>= fun _ => Parser.current >>= f) N y :=
  .expect fun t ht => .current (h t) (.begun (by rw [ht]; decide)
    (.forget (by rw [Token.leaves, ht]; exact .refl _) (r t)))

/-! ## Lists -/

def moreItems {item : Parser α} (r : Recipe .inside [] item N .inside) (m : Nat) :
    Recipe .inside [] (Parser.moreItems item m) (List.flatMap N) .inside :=
  match m with
  | 0 => .pure (.refl _)
  | m + 1 => .take (by decide)
    (r.bind fun a => (moreItems r m).bind fun as => .ret fun l => by simp [Nat.add_comm]) (.pure (.refl _))

def items {item : Parser α} (r : Recipe .inside [] item N .inside) {close : Token.Kind} (hk : close ≠ .semicolon) :
    Recipe .inside [] (Parser.items item close) (List.flatMap N) .inside :=
  .take hk (.pure (.refl _)) (r.bind fun a => .unread fun m => (moreItems r m).bind fun as =>
    .need hk (.ret fun l => by simp [Nat.add_comm]))

def param : Recipe .inside [] Parser.param (fun name => [.name name]) .inside :=
  .name (fun _ _ => rfl) fun _ => .pure (.refl _)

/-! ## Statements -/

def close {st : Stmt} (h : ∀ l, st.leaves.count l ≤ had.count l) :
    Recipe .settled had (skipSemicolon >>= fun _ => Pure.pure st) Stmt.leaves .settled :=
  .seq .skip fun _ => .ret h

section Rules

variable {expr : Precedence → Parser Expr} (r : ∀ p, Recipe .start [] (expr p) Expr.leaves .inside)

def bindStatement : Recipe .inside [] (Parser.bindStatement expr) Stmt.leaves .settled :=
  .name (fun _ _ => rfl) fun _ => .need (by decide) (.go ((r .lowest).bind fun e => .weaken .inside_settled
    (.close fun l => by simp [Stmt.leaves, List.count_cons])))

def returnStatement : Recipe .inside [] (Parser.returnStatement expr) Stmt.leaves .settled :=
  .go (.value (r .lowest) (fun e => .weaken .inside_settled (.close fun l => by simp [Stmt.leaves]))
    (.weaken .stuck_settled (.close fun l => by simp [Stmt.leaves])))

def expressionStatement : Recipe .start [] (Parser.expressionStatement expr) Stmt.leaves .settled :=
  (r .lowest).bind fun e => .weaken .inside_settled (.close fun l => by simp [Stmt.leaves])

def statement : Recipe .start [] (Parser.statement expr) Stmt.leaves .settled :=
  .see fun t => .current (fun _ => rfl) (.forget List.nil_subperm (by
    -- the remaining kinds one by one: only of a kind that is known does the rule say how it goes on
    cases h : t.kind with
    | letWord => exact .begun (by rw [h]; decide) (bindStatement r)
    | returnWord => exact .begun (by rw [h]; decide) (returnStatement r)
    | _ => exact .unsee (expressionStatement r)))

def statements (stops : Token.Kind → Bool) (m : Nat) :
    Recipe .turn [] (Parser.statements expr stops m) (List.flatMap Stmt.leaves) .inside :=
  match m with
  | 0 => .weaken .turn_inside (.pure (.refl _))
  | m + 1 => .look (fun _ _ => rfl) fun _ => .ite (fun _ => .weaken .turn_inside (.pure (.refl _))) fun _ =>
    .turn (statement r) (fun s => (statements stops m).bind fun ss => .ret fun l => by simp [Nat.add_comm])
    ((statements stops m).bind fun ss => .ret fun l => by simp)

def block {t : Token} (hk : t.kind = .leftBrace) :
    Recipe (.current t) [] (Parser.block expr) (List.flatMap Stmt.leaves) .inside :=
  .enter hk (.unread fun m => statements r endsBlock m)

/-! ## Expressions -/

/-- A number is read as its token says, or gives up if 64 bits cannot hold it. -/
def integer {t : Token} (hk : t.kind = .int) : Recipe (.current t) [] Parser.integer Expr.leaves .inside :=
  .current (fun _ => rfl) (.ite
    (fun hn => .begun (by rw [hk]; decide) (.ret fun l => by simp [Token.leaves, hk, hn, Expr.leaves]))
    fun hn => .tooLarge hk hn)

def unary (op : UnaryOp) : Recipe .inside [] (Parser.unary expr op) Expr.leaves .inside :=
  .go ((r .unary).bind fun e => .ret fun l => by simp [Expr.leaves])

def grouped : Recipe .inside [] (Parser.grouped expr) Expr.leaves .inside :=
  .go ((r .lowest).bind fun e => .need (by decide) (.ret fun l => by simp))

def conditional : Recipe .inside [] (Parser.conditional expr) Expr.leaves .inside :=
  .need (by decide) (.go ((r .lowest).bind fun c => .need (by decide) (.expect fun _ hk =>
    (block r hk).bind fun yes => .take (by decide)
      (.expect fun _ hk => (block r hk).bind fun no => .ret fun l => by simp [Expr.leaves, Stmt.allLeaves_eq]; omega)
      (.ret fun l => by simp [Expr.leaves, Stmt.allLeaves_eq, Nat.add_comm]))))

def function : Recipe .inside [] (Parser.function expr) Expr.leaves .inside :=
  .need (by decide) ((items param (by decide)).bind fun params => .expect fun _ hk => (block r hk).bind fun body =>
    .ret fun l => by simp [Expr.leaves, Stmt.allLeaves_eq, List.map_eq_flatMap, Nat.add_comm])

def nextExpr : Recipe .inside [] (Parser.nextExpr expr) Expr.leaves .inside := .go (r .lowest)

def array : Recipe .inside [] (Parser.array expr) Expr.leaves .inside :=
  (items (nextExpr r) (by decide)).bind fun es => .ret fun l => by simp [Expr.leaves, Expr.allLeaves_eq]

def pair : Recipe .inside [] (Parser.pair expr) (fun q => q.1.leaves ++ q.2.leaves) .inside :=
  (nextExpr r).bind fun k => .need (by decide) ((nextExpr r).bind fun v => .ret fun l => by simp [Nat.add_comm])

def pairs (m : Nat) :
    Recipe .inside [] (Parser.pairs expr m) (List.flatMap fun q => q.1.leaves ++ q.2.leaves) .inside :=
  match m with
  | 0 => .weaken .inside_start .noOperand
  | m + 1 => .ask fun _ => .ite (fun _ => .pure (.refl _)) fun _ => (pair r).bind fun q =>
    -- what comes behind a pair is the same with and without a comma
    have rest : Recipe .inside ((q.1.leaves ++ q.2.leaves) ++ [])
        (Parser.pairs expr m >>= fun ps => Pure.pure (q :: ps)) (List.flatMap fun q => q.1.leaves ++ q.2.leaves)
        .inside :=
      (pairs m).bind fun ps => .ret fun l => by simp; omega
    .ask fun _ => .ite (fun _ => .need (by decide) rest) fun _ => rest

def hash : Recipe .inside [] (Parser.hash expr) Expr.leaves .inside :=
  .unread fun m => (pairs r m).bind fun ps => .need (by decide)
    (.ret fun l => by simp [Expr.leaves, Expr.pairLeaves_eq])

def operand : Recipe .start [] (Parser.operand expr) Expr.leaves .inside :=
  .see fun t => .current (fun _ => rfl) (by
    cases h : t.kind with
    | ident => exact .begun (by rw [h]; decide) (.ret fun l => by simp [Token.leaves, h, Expr.leaves])
    | string => exact .begun (by rw [h]; decide) (.ret fun l => by simp [Token.leaves, h, Expr.leaves])
    | trueWord | falseWord => exact .begun (by rw [h]; decide) (.ret fun l => by simp [Expr.leaves])
    | int => exact .forget List.nil_subperm (integer h)
    | bang => exact .begun (by rw [h]; decide) (.forget List.nil_subperm (unary r .not))
    | minus => exact .begun (by rw [h]; decide) (.forget List.nil_subperm (unary r .neg))
    | leftParen => exact .begun (by rw [h]; decide) (.forget List.nil_subperm (grouped r))
    | ifWord => exact .begun (by rw [h]; decide) (.forget List.nil_subperm (conditional r))
    | functionWord => exact .begun (by rw [h]; decide) (.forget List.nil_subperm (function r))
    | leftBracket => exact .begun (by rw [h]; decide) (.forget List.nil_subperm (array r))
    | leftBrace => exact .begun (by rw [h]; decide) (.forget List.nil_subperm (hash r))
    | _ => exact .unsee .noOperand)

def continued (left : Expr) :
    (k : Continuation) → Recipe .inside left.leaves (Parser.continued expr left k) Expr.leaves .inside
  | .operator op => .go ((r op.precedence).bind fun e => .ret fun l => by simp [Expr.leaves, Nat.add_comm])
  | .call => (items (nextExpr r) (by decide)).bind fun es => .ret fun l => by
    simp [Expr.leaves, Expr.allLeaves_eq, Nat.add_comm]
  | .index => (nextExpr r).bind fun e => .need (by decide) (.ret fun l => by simp [Expr.leaves, Nat.add_comm])

/-- No continuation is announced by a semicolon. -/
def climb (p : Precedence) (m : Nat) (left : Expr) :
    Recipe .inside left.leaves (Parser.climb expr p m left) Expr.leaves .inside :=
  match m with
  | 0 => .pure (.refl _)
  | m + 1 => .foresee fun t => .peek (fun _ => rfl) (by
    cases h : Continuation.ofKind? t.kind with
    | none => exact .unsee (.pure (.refl _))
    | some k =>
      have ht : t.kind ≠ .semicolon := fun hk => by
        rw [hk] at h
        cases h
      exact .ite (fun _ => .advance (.begun ht ((continued r left k).seq (climb p m))))
        fun _ => .unsee (.pure (.refl _)))

end Rules

def expr (m : Nat) (p : Precedence) : Recipe .start [] (Parser.expr m p) Expr.leaves .inside :=
  match m with
  | 0 => .noOperand
  | m + 1 => (operand (expr m)).seq fun left => .unread fun l => climb (expr m) p l left

def wholeProgram : Recipe .turn [] Parser.wholeProgram (List.flatMap Stmt.leaves) .inside :=
  .unread fun m => statements (expr m) _ m

end Recipe

end MonkeyLang.Parser
