/-
Programs: operators, expressions and statements. A program and a block are both a sequence of
statements. Two programs can be told apart (`DecidableEq`).
-/

namespace MonkeyLang

inductive UnaryOp where
  | not
  | neg
deriving DecidableEq, Repr, Inhabited

inductive BinaryOp where
  | add
  | sub
  | mul
  | div
  | less
  | greater
  | equal
  | notEqual
deriving DecidableEq, Repr, Inhabited

def UnaryOp.sign : UnaryOp → String
  | not => "!"
  | neg => "-"

def BinaryOp.sign : BinaryOp → String
  | add => "+"
  | sub => "-"
  | mul => "*"
  | div => "/"
  | less => "<"
  | greater => ">"
  | equal => "=="
  | notEqual => "!="

mutual

inductive Expr where
  | ident (name : String)
  | int (value : Int64)
  | bool (value : Bool)
  | string (value : String)
  | array (elements : List Expr)
  /-- The pairs of a hash literal, in the order of the source. -/
  | hash (pairs : List (Expr × Expr))
  | function (params : List String) (body : List Stmt)
  | unary (op : UnaryOp) (operand : Expr)
  | binary (op : BinaryOp) (left right : Expr)
  | cond (condition : Expr) (consequence : List Stmt) (alternative : Option (List Stmt))
  | call (callee : Expr) (arguments : List Expr)
  | index (collection key : Expr)

inductive Stmt where
  | bind (name : String) (value : Expr)
  /-- A return lacks its value only where the value could not be read. -/
  | ret (value : Option Expr)
  | expr (value : Expr)

end

instance : Inhabited Expr := ⟨.bool false⟩

instance : Inhabited Stmt := ⟨.ret none⟩

structure Program where
  statements : List Stmt
deriving Inhabited

/-! ## Equality -/

mutual

def Expr.same : Expr → Expr → Bool
  | .ident a, .ident b => a == b
  | .int a, .int b => a == b
  | .bool a, .bool b => a == b
  | .string a, .string b => a == b
  | .array a, .array b => Expr.sameAll a b
  | .hash a, .hash b => Expr.samePairs a b
  | .function p a, .function q b => p == q && Stmt.sameAll a b
  | .unary o a, .unary p b => o == p && a.same b
  | .binary o a a', .binary p b b' => o == p && a.same b && a'.same b'
  | .cond a t none, .cond b u none => a.same b && Stmt.sameAll t u
  | .cond a t (some e), .cond b u (some f) => a.same b && Stmt.sameAll t u && Stmt.sameAll e f
  | .call a xs, .call b ys => a.same b && Expr.sameAll xs ys
  | .index a i, .index b j => a.same b && i.same j
  | _, _ => false

def Expr.sameAll : List Expr → List Expr → Bool
  | [], [] => true
  | a :: as, b :: bs => a.same b && Expr.sameAll as bs
  | _, _ => false

def Expr.samePairs : List (Expr × Expr) → List (Expr × Expr) → Bool
  | [], [] => true
  | (k, a) :: as, (l, b) :: bs => k.same l && a.same b && Expr.samePairs as bs
  | _, _ => false

def Stmt.same : Stmt → Stmt → Bool
  | .bind n a, .bind m b => n == m && a.same b
  | .ret none, .ret none => true
  | .ret (some a), .ret (some b) => a.same b
  | .expr a, .expr b => a.same b
  | _, _ => false

def Stmt.sameAll : List Stmt → List Stmt → Bool
  | [], [] => true
  | a :: as, b :: bs => a.same b && Stmt.sameAll as bs
  | _, _ => false

end

mutual

theorem Expr.same_iff : ∀ a b : Expr, a.same b = true ↔ a = b
  | .ident _, b => by cases b <;> simp [Expr.same]
  | .int _, b => by cases b <;> simp [Expr.same]
  | .bool _, b => by cases b <;> simp [Expr.same]
  | .string _, b => by cases b <;> simp [Expr.same]
  | .array as, b => by cases b <;> simp [Expr.same, Expr.sameAll_iff as]
  | .hash as, b => by cases b <;> simp [Expr.same, Expr.samePairs_iff as]
  | .function _ as, b => by cases b <;> simp [Expr.same, Stmt.sameAll_iff as]
  | .unary _ a, b => by cases b <;> simp [Expr.same, Expr.same_iff a]
  | .binary _ a a', b => by
    cases b <;> simp [Expr.same, Expr.same_iff a, Expr.same_iff a', and_assoc]
  | .cond a t none, b => by
    cases b with
    | cond b u f => cases f <;> simp [Expr.same, Expr.same_iff a, Stmt.sameAll_iff t]
    | _ => simp [Expr.same]
  | .cond a t (some e), b => by
    cases b with
    | cond b u f =>
      cases f <;> simp [Expr.same, Expr.same_iff a, Stmt.sameAll_iff t, Stmt.sameAll_iff e, and_assoc]
    | _ => simp [Expr.same]
  | .call a xs, b => by cases b <;> simp [Expr.same, Expr.same_iff a, Expr.sameAll_iff xs]
  | .index a i, b => by cases b <;> simp [Expr.same, Expr.same_iff a, Expr.same_iff i]

theorem Expr.sameAll_iff : ∀ as bs : List Expr, Expr.sameAll as bs = true ↔ as = bs
  | [], bs => by cases bs <;> simp [Expr.sameAll]
  | a :: as, bs => by cases bs <;> simp [Expr.sameAll, Expr.same_iff a, Expr.sameAll_iff as]

theorem Expr.samePairs_iff : ∀ as bs : List (Expr × Expr), Expr.samePairs as bs = true ↔ as = bs
  | [], bs => by cases bs <;> simp [Expr.samePairs]
  | (k, a) :: as, [] => by simp [Expr.samePairs]
  | (k, a) :: as, (l, b) :: bs => by
    simp [Expr.samePairs, Expr.same_iff k, Expr.same_iff a, Expr.samePairs_iff as]

theorem Stmt.same_iff : ∀ a b : Stmt, a.same b = true ↔ a = b
  | .bind _ a, b => by cases b <;> simp [Stmt.same, Expr.same_iff a]
  | .ret none, b => by
    cases b with
    | ret v => cases v <;> simp [Stmt.same]
    | _ => simp [Stmt.same]
  | .ret (some a), b => by
    cases b with
    | ret v => cases v <;> simp [Stmt.same, Expr.same_iff a]
    | _ => simp [Stmt.same]
  | .expr a, b => by cases b <;> simp [Stmt.same, Expr.same_iff a]

theorem Stmt.sameAll_iff : ∀ as bs : List Stmt, Stmt.sameAll as bs = true ↔ as = bs
  | [], bs => by cases bs <;> simp [Stmt.sameAll]
  | a :: as, bs => by cases bs <;> simp [Stmt.sameAll, Stmt.same_iff a, Stmt.sameAll_iff as]

end

instance : DecidableEq Expr := fun a b => decidable_of_iff _ (Expr.same_iff a b)

instance : DecidableEq Stmt := fun a b => decidable_of_iff _ (Stmt.same_iff a b)

deriving instance DecidableEq for Program

end MonkeyLang
