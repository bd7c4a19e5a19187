/-
More depth never changes an outcome: an evaluation that comes to its end at a depth ends in the same way
at every greater one (`refines_expr`). So what a program evaluates to does not depend on the depth, and
two runs that come to their end can be brought to a common one.
-/
import MonkeyLang.Eval.Expression
import Mathlib.Tactic.Common

namespace MonkeyLang

namespace Eval

variable {α β : Type}

/-- Wherever `e` comes to an end, `e'` comes to the same. -/
def Refines (e e' : Eval α) : Prop := ∀ m x, e.run m = some x → e'.run m = some x

theorem Refines.refl (e : Eval α) : Refines e e := fun _ _ h => h

theorem Refines.trans {e e' e'' : Eval α} (h : Refines e e') (h' : Refines e' e'') : Refines e e'' :=
  fun m x hx => h' m x (h m x hx)

theorem Refines.bind {e e' : Eval α} {f f' : α → Eval β} (he : Refines e e') (hf : ∀ a, Refines (f a) (f' a)) :
    Refines (e >>= f) (e' >>= f') := by
  intro m x hx
  rw [run_bind] at hx
  split at hx
  · next a m' h => rw [run_bind_ok (he m _ h)]; exact hf a m' x hx
  · next sig m' h => rw [run_bind_error (he m _ h)]; exact hx
  · cases hx

theorem Refines.call {e e' : Eval Value} (h : Refines e e') : Refines (call e) (call e') := by
  intro m x hx
  unfold run Eval.call at hx ⊢
  cases he : e m with
  | none => rw [he] at hx; cases hx
  | some y =>
    rw [he] at hx
    rw [show e' m = some y from h m y he]
    exact hx

/-! ## Rules -/

section Rules

variable {expr expr' : Expr → FrameRef → Eval Value} (h : ∀ e r, Refines (expr e r) (expr' e r)) (r : FrameRef)

include h

theorem refines_all (es : List Expr) : Refines (all expr r es) (all expr' r es) := by
  induction es with
  | nil => exact .refl _
  | cons e es ih => exact (h e r).bind fun _ => ih.bind fun _ => .refl _

theorem refines_pairs (x : Hash) (ps : List (Expr × Expr)) : Refines (pairs expr r x ps) (pairs expr' r x ps) := by
  induction ps generalizing x with
  | nil => exact .refl _
  | cons p ps ih => exact (h p.1 r).bind fun _ => (Refines.refl _).bind fun _ => (h p.2 r).bind fun _ => ih _

theorem refines_statement (st : Stmt) : Refines (statement expr r st) (statement expr' r st) := by
  unfold statement
  split
  · exact (h _ r).bind fun _ => .refl _
  · exact (h _ r).bind fun _ => .refl _
  · exact .refl _
  · exact h _ r

theorem refines_statementsAfter (v : Value) (ss : List Stmt) :
    Refines (statementsAfter expr r v ss) (statementsAfter expr' r v ss) := by
  induction ss generalizing v with
  | nil => exact .refl _
  | cons st ss ih => exact (refines_statement h r st).bind fun w => ih w

theorem refines_statements (ss : List Stmt) : Refines (statements expr r ss) (statements expr' r ss) :=
  refines_statementsAfter h r .null ss

omit r in
theorem refines_apply (f : Value) (args : List Value) : Refines (apply expr f args) (apply expr' f args) := by
  unfold apply
  split
  · refine (Refines.refl _).bind fun s => ?_
    split
    · next c _ =>
      unfold applyClosure
      split
      · exact (Refines.refl _).bind fun scope => (Refines.refl _).bind fun _ =>
          (refines_statements h scope c.body).call
      · exact .refl _
    · exact .refl _
  · exact .refl _
  · exact .refl _

theorem refines_level (e : Expr) : Refines (level expr e r) (level expr' e r) := by
  cases e with
  | array es => exact (refines_all h r es).bind fun _ => .refl _
  | hash ps => exact (refines_pairs h r .empty ps).bind fun _ => .refl _
  | unary op e => exact (h e r).bind fun _ => .refl _
  | binary op a b => exact (h a r).bind fun _ => (h b r).bind fun _ => .refl _
  | cond c yes no =>
    refine (h c r).bind fun v => ?_
    split
    · exact refines_statements h r yes
    · split
      · exact refines_statements h r _
      · exact .refl _
  | call f args => exact (h f r).bind fun v => (refines_all h r args).bind fun vs => refines_apply h v vs
  | index c k => exact (h c r).bind fun _ => (h k r).bind fun _ => .refl _
  | _ => exact .refl _

end Rules

theorem refines_expr_succ (n : Nat) (e : Expr) (r : FrameRef) : Refines (expr n e r) (expr (n + 1) e r) := by
  induction n generalizing e r with
  | zero => intro m x hx; cases hx
  | succ n ih => exact refines_level ih r e

theorem refines_expr {n k : Nat} (hk : n ≤ k) (e : Expr) (r : FrameRef) : Refines (expr n e r) (expr k e r) := by
  induction hk with
  | refl => exact .refl _
  | step _ ih => exact ih.trans (refines_expr_succ _ e r)

theorem refines_statements_expr {n k : Nat} (hk : n ≤ k) (r : FrameRef) (ss : List Stmt) :
    Refines (statements (expr n) r ss) (statements (expr k) r ss) :=
  refines_statements (fun e r => refines_expr hk e r) r ss

/-- What comes to an end at two depths ends in the same way at both. -/
theorem eq_of_refines {e : Nat → Eval α} (he : ∀ n k, n ≤ k → Refines (e n) (e k)) {n k : Nat} {m : Machine}
    {x y : Except Signal α × Machine} (hx : (e n).run m = some x) (hy : (e k).run m = some y) : y = x := by
  have hx' := he n _ (Nat.le_max_left n k) m x hx
  have hy' := he k _ (Nat.le_max_right n k) m y hy
  exact Option.some.inj (hy'.symm.trans hx')

end Eval

end MonkeyLang
