/-
Integer arithmetic. An expression of integers, signs and the four operators ends in an integer or in a division by
zero, and changes nothing (`Arith.gives_or_comesToZeroDivision`). Without a division the integer is the exact value
modulo `2 ^ 64`, however often it leaves the 64 bits on the way (`Arith.outcome_of_divisionFree`); with divisions it is
the exact value if that never leaves them (`Arith.outcome_of_inRange`). A division by zero is the outcome exactly if
evaluation comes to one.
-/
import MonkeyLang.Proofs.Session.Signals
import Mathlib.Data.Int.ModEq

namespace MonkeyLang

/-! ## Operators -/

inductive ArithOp where
  | add
  | sub
  | mul
  | div
deriving DecidableEq

namespace ArithOp

def op : ArithOp → BinaryOp
  | add => .add
  | sub => .sub
  | mul => .mul
  | div => .div

/-- The result in the integers. A division is toward zero. -/
def exactValue : ArithOp → Int → Int → Int
  | add, x, y => x + y
  | sub, x, y => x - y
  | mul, x, y => x * y
  | div, x, y => x.tdiv y

/-- The result in 64 bits. -/
def wrapped : ArithOp → Int64 → Int64 → Int64
  | add, x, y => x + y
  | sub, x, y => x - y
  | mul, x, y => x * y
  | div, x, y => x / y

/-- The result in 64 bits, or the dividend of a division by zero. -/
def on (o : ArithOp) (x y : Int64) : Except Int64 Int64 := if o = div ∧ y = 0 then .error x else .ok (o.wrapped x y)

theorem of_on_eq_error {o : ArithOp} {x y z : Int64} (h : o.on x y = .error z) : o = div ∧ y = 0 ∧ x = z := by
  unfold on at h
  split at h
  · next hzero => exact ⟨hzero.1, hzero.2, Except.error.inj h⟩
  · cases h

theorem toInt_wrapped (o : ArithOp) (x y : Int64) :
    (o.wrapped x y).toInt = (o.exactValue x.toInt y.toInt).bmod (2 ^ 64) := by
  cases o with
  | add => exact Int64.toInt_add x y
  | sub => exact Int64.toInt_sub x y
  | mul => exact Int64.toInt_mul x y
  | div => exact Int64.toInt_div x y

theorem exactValue_modEq {o : ArithOp} (ho : o ≠ div) {n x x' y y' : Int} (hx : x ≡ x' [ZMOD n]) (hy : y ≡ y' [ZMOD n]) :
    o.exactValue x y ≡ o.exactValue x' y' [ZMOD n] := by
  cases o with
  | add => exact hx.add hy
  | sub => exact hx.sub hy
  | mul => exact hx.mul hy
  | div => exact absurd rfl ho

end ArithOp

theorem bmod_modEq (x : Int) : x.bmod (2 ^ 64) ≡ x [ZMOD 2 ^ 64] := Int.bmod_emod

theorem bmod_of_inRange {x : Int} (h : -2 ^ 63 ≤ x ∧ x < 2 ^ 63) : x.bmod (2 ^ 64) = x :=
  Int.bmod_eq_of_le (by omega) (by omega)

/-! ## Expressions -/

/-- An expression of integers, signs and operators. -/
inductive Arith where
  | int (n : Int64)
  | neg (a : Arith)
  | binary (o : ArithOp) (l r : Arith)

namespace Arith

def expr : Arith → Expr
  | int n => .int n
  | neg a => .unary .neg a.expr
  | binary o l r => .binary o.op l.expr r.expr

/-- The value in the integers. -/
def exactValue : Arith → Int
  | int n => n.toInt
  | neg a => -a.exactValue
  | binary o l r => o.exactValue l.exactValue r.exactValue

/-- All expressions in an expression, itself among them. -/
def parts : Arith → List Arith
  | int n => [int n]
  | neg a => neg a :: a.parts
  | binary o l r => binary o l r :: (l.parts ++ r.parts)

def DivisionFree (a : Arith) : Prop := ∀ l r, binary .div l r ∉ a.parts

/-- No exact result on the way leaves the 64 bits, and no divisor is zero. -/
structure InRange (a : Arith) : Prop where
  bounds : ∀ b ∈ a.parts, -2 ^ 63 ≤ b.exactValue ∧ b.exactValue < 2 ^ 63
  divisors : ∀ l r, binary .div l r ∈ a.parts → r.exactValue ≠ 0

/-- The value in 64 bits, or the dividend of the first division by zero. -/
def outcome : Arith → Except Int64 Int64
  | int n => .ok n
  | neg a => do
    let x ← a.outcome
    return -x
  | binary o l r => do
    let x ← l.outcome
    let y ← r.outcome
    o.on x y

theorem self_mem_parts (a : Arith) : a ∈ a.parts := by
  cases a <;> exact List.mem_cons_self

theorem InRange.of_subset {a b : Arith} (h : a.InRange) (hb : b.parts ⊆ a.parts) : b.InRange where
  bounds c hc := h.bounds c (hb hc)
  divisors l r hd := h.divisors l r (hb hd)

theorem outcome_of_divisionFree {a : Arith} (h : a.DivisionFree) :
    ∃ n, a.outcome = .ok n ∧ n.toInt ≡ a.exactValue [ZMOD 2 ^ 64] := by
  induction a with
  | int n => exact ⟨n, rfl, rfl⟩
  | neg a ih =>
    obtain ⟨n, hn, hmod⟩ := ih fun l r hd => h l r (List.mem_cons_of_mem _ hd)
    refine ⟨-n, by rw [outcome, hn]; rfl, ?_⟩
    rw [Int64.toInt_neg]
    exact (bmod_modEq _).trans hmod.neg
  | binary o l r ihl ihr =>
    obtain ⟨x, hx, hxmod⟩ := ihl fun l' r' hd => h l' r' (List.mem_cons_of_mem _ (List.mem_append_left _ hd))
    obtain ⟨y, hy, hymod⟩ := ihr fun l' r' hd => h l' r' (List.mem_cons_of_mem _ (List.mem_append_right _ hd))
    have ho : o ≠ .div := by
      rintro rfl
      exact h l r (self_mem_parts _)
    refine ⟨o.wrapped x y, ?_, ?_⟩
    · rw [outcome, hx, hy]
      exact if_neg fun hz => ho hz.1
    · rw [ArithOp.toInt_wrapped]
      exact (bmod_modEq _).trans (ArithOp.exactValue_modEq ho hxmod hymod)

theorem outcome_of_inRange {a : Arith} (h : a.InRange) : ∃ n, a.outcome = .ok n ∧ n.toInt = a.exactValue := by
  induction a with
  | int n => exact ⟨n, rfl, rfl⟩
  | neg a ih =>
    obtain ⟨n, hn, hexact⟩ := ih (h.of_subset (List.subset_cons_self ..))
    refine ⟨-n, by rw [outcome, hn]; rfl, ?_⟩
    rw [Int64.toInt_neg, hexact]
    exact bmod_of_inRange (h.bounds _ (self_mem_parts _))
  | binary o l r ihl ihr =>
    obtain ⟨x, hx, hxexact⟩ := ihl (h.of_subset fun b hb => List.mem_cons_of_mem _ (List.mem_append_left _ hb))
    obtain ⟨y, hy, hyexact⟩ := ihr (h.of_subset fun b hb => List.mem_cons_of_mem _ (List.mem_append_right _ hb))
    refine ⟨o.wrapped x y, ?_, ?_⟩
    · rw [outcome, hx, hy]
      refine if_neg ?_
      rintro ⟨rfl, rfl⟩
      exact h.divisors l r (self_mem_parts _) hyexact.symm
    · rw [ArithOp.toInt_wrapped, hxexact, hyexact]
      exact bmod_of_inRange (h.bounds _ (self_mem_parts _))

/-! ## Evaluation -/

/-- What an expression with an outcome ends in. -/
def ending : Except Int64 Int64 → Except Signal Value
  | .ok n => .ok (.int n)
  | .error x => .error (.failed (.divisionByZero x))

end Arith

theorem ArithOp.onIntegers_op (o : ArithOp) (x y : Int64) :
    (o.op.onIntegers x y).mapError Signal.failed = Arith.ending (o.on x y) := by
  cases o with
  | div => by_cases hy : y = 0 <;> simp [op, BinaryOp.onIntegers, on, hy, wrapped, Arith.ending, Except.mapError]
  | _ => rfl

namespace Eval

variable {scope : FrameRef} {m m₁ m₂ : Machine} {e l r : Expr} {v w : Value}

theorem run_ofExcept {α : Type} (x : Except RuntimeError α) (m : Machine) :
    (ofExcept x).run m = some (x.mapError .failed, m) := by
  cases x <;> rfl

theorem gives_unary (op : UnaryOp) (he : Gives scope e m (.ok v) m₁) :
    Gives scope (.unary op e) m ((op.apply v).mapError .failed) m₁ := by
  obtain ⟨n, hn⟩ := he
  exact ⟨n + 1, (run_bind_ok hn _).trans (run_ofExcept _ _)⟩

theorem gives_binary (op : BinaryOp) (hl : Gives scope l m (.ok v) m₁) (hr : Gives scope r m₁ (.ok w) m₂) :
    Gives scope (.binary op l r) m ((op.apply v w).mapError .failed) m₂ := by
  obtain ⟨n, hn⟩ := hl.run_of_le
  obtain ⟨k, hk⟩ := hr.run_of_le
  have hn' := hn _ (Nat.le_max_left n k)
  have hk' := hk _ (Nat.le_max_right n k)
  exact ⟨max n k + 1, (run_bind_ok hn' _).trans ((run_bind_ok hk' _).trans (run_ofExcept _ _))⟩

/-- Evaluation comes to a division whose divisor turns out to be zero. -/
def ComesToZeroDivision (scope : FrameRef) (m : Machine) (e : Expr) (x : Int64) : Prop :=
  ∃ ks l r, e = Site.fillAll ks (.binary .div l r) ∧ Comes scope ks m m ∧
    Gives scope l m (.ok (.int x)) m ∧ Gives scope r m (.ok (.int 0)) m

theorem ComesToZeroDivision.gives {x : Int64} (h : ComesToZeroDivision scope m e x) :
    Gives scope e m (.error (.failed (.divisionByZero x))) m := by
  obtain ⟨ks, l, r, rfl, hks, hl, hr⟩ := h
  exact hks.gives_fill (gives_binary .div hl hr)

theorem ComesToZeroDivision.fill {x : Int64} (h : ComesToZeroDivision scope m e x) (k : Site) {vs : List Value}
    (hk : Passes scope k.before m vs m) : ComesToZeroDivision scope m (k.fill e) x := by
  obtain ⟨ks, l, r, rfl, hks, hl, hr⟩ := h
  exact ⟨k :: ks, l, r, rfl, .cons hk hks, hl, hr⟩

end Eval

namespace Arith

open Eval

/-- An expression changes nothing, and ends in an integer unless evaluation comes to a division by zero. -/
theorem gives_or_comesToZeroDivision (a : Arith) (scope : FrameRef) (m : Machine) :
    (∀ n, a.outcome = .ok n → Gives scope a.expr m (.ok (.int n)) m) ∧
      ∀ x, a.outcome = .error x → ComesToZeroDivision scope m a.expr x := by
  induction a with
  | int n =>
    refine ⟨fun k hk => ?_, nofun⟩
    cases hk
    exact ⟨1, rfl⟩
  | neg a ih =>
    rw [outcome]
    cases ha : a.outcome with
    | ok x =>
      refine ⟨fun n hn => ?_, nofun⟩
      cases hn
      exact gives_unary .neg (ih.1 x ha)
    | error x =>
      refine ⟨nofun, fun y hy => ?_⟩
      cases hy
      exact (ih.2 x ha).fill (.operand .neg) ⟨0, .nil m⟩
  | binary o l r ihl ihr =>
    rw [outcome]
    cases hl : l.outcome with
    | error x =>
      refine ⟨nofun, fun y hy => ?_⟩
      cases hy
      exact (ihl.2 x hl).fill (.left o.op r.expr) ⟨0, .nil m⟩
    | ok x =>
      have hleft := ihl.1 x hl
      cases hr : r.outcome with
      | error y =>
        refine ⟨nofun, fun z hz => ?_⟩
        cases hz
        obtain ⟨n, hn⟩ := hleft
        exact (ihr.2 y hr).fill (.right o.op l.expr) ⟨n, .cons hn rfl (.nil m)⟩
      | ok y =>
        have hright := ihr.1 y hr
        have hboth := gives_binary o.op hleft hright
        rw [show o.op.apply (.int x) (.int y) = o.op.onIntegers x y from rfl, ArithOp.onIntegers_op] at hboth
        refine ⟨fun n hn => ?_, fun z hz => ?_⟩
        · rwa [show o.on x y = .ok n from hn] at hboth
        · obtain ⟨rfl, rfl, rfl⟩ := ArithOp.of_on_eq_error (o := o) hz
          exact ⟨[], l.expr, r.expr, rfl, .nil m, hleft, hright⟩

/-- What expressions of integers end in: without divisions in the exact value modulo `2 ^ 64`, and else in an integer,
which is the exact value if that stays in range, or in a division by zero, if evaluation comes to one. -/
theorem arithmetic_wraps (a : Arith) (scope : FrameRef) (m : Machine) :
    (a.DivisionFree → ∃ n : Int64, -2 ^ 63 ≤ n.toInt ∧ n.toInt < 2 ^ 63 ∧ n.toInt ≡ a.exactValue [ZMOD 2 ^ 64] ∧
      ∀ o m', Gives scope a.expr m o m' ↔ o = .ok (.int n) ∧ m' = m) ∧
    ((∃ n : Int64, ∀ o m', Gives scope a.expr m o m' ↔ o = .ok (.int n) ∧ m' = m) ∨
      ∃ x : Int64, ∀ o m', Gives scope a.expr m o m' ↔ o = .error (.failed (.divisionByZero x)) ∧ m' = m) ∧
    (∀ x, (∃ m', Gives scope a.expr m (.error (.failed (.divisionByZero x))) m') ↔
      ComesToZeroDivision scope m a.expr x) ∧
    (a.InRange → ∃ n : Int64, n.toInt = a.exactValue ∧
      ∀ o m', Gives scope a.expr m o m' ↔ o = .ok (.int n) ∧ m' = m) := by
  obtain ⟨hok, herror⟩ := a.gives_or_comesToZeroDivision scope m
  refine ⟨fun h => ?_, ?_, fun x => ⟨?_, fun h => ⟨m, h.gives⟩⟩, fun h => ?_⟩
  · obtain ⟨n, hn, hmod⟩ := outcome_of_divisionFree h
    exact ⟨n, n.le_toInt, n.toInt_lt, hmod, (hok n hn).iff⟩
  · cases ha : a.outcome with
    | ok n => exact .inl ⟨n, (hok n ha).iff⟩
    | error x => exact .inr ⟨x, (herror x ha).gives.iff⟩
  · rintro ⟨m', h⟩
    cases ha : a.outcome with
    | ok n => exact nomatch (hok n ha).unique h
    | error y =>
      obtain ⟨heq, -⟩ := (herror y ha).gives.unique h
      cases heq
      exact herror x ha
  · obtain ⟨n, hn, hexact⟩ := outcome_of_inRange h
    exact ⟨n, hexact, (hok n hn).iff⟩

/-- A product leaves the 64 bits and comes back to two; a quotient is cut toward zero; and the difference of equals
divides nothing. -/
theorem arithmetic_wraps_past_limit :
    let product : Arith := binary .mul (neg (.int 9223372036854775807)) (.int 2)
    let quotient : Arith := binary .div (neg (.int 7)) (.int 2)
    let failing : Arith := binary .add (.int 4) (binary .div (.int 1) (binary .sub (.int 3) (.int 3)))
    Gives Store.global product.expr .initial (.ok (.int 2)) .initial ∧
      Gives Store.global quotient.expr .initial (.ok (.int (-3))) .initial ∧
      ComesToZeroDivision Store.global .initial failing.expr 1 := by
  intro product quotient failing
  refine ⟨?_, ?_, ?_⟩
  · obtain ⟨n, hlo, hhi, hmod, hgives⟩ := (arithmetic_wraps product Store.global .initial).1
      (by simp [DivisionFree, product, parts])
    have hn : n = 2 := by
      have hexact : n.toInt % 2 ^ 64 = -18446744073709551614 % 2 ^ 64 := hmod
      rw [← Int64.toInt_inj]
      show n.toInt = 2
      omega
    exact (hgives _ _).2 ⟨by rw [hn], rfl⟩
  · have hrange : quotient.InRange :=
      ⟨by simp [quotient, parts, exactValue, ArithOp.exactValue], by simp [quotient, parts, exactValue]⟩
    obtain ⟨n, hexact, hgives⟩ := (arithmetic_wraps quotient Store.global .initial).2.2.2 hrange
    have hn : n = -3 := Int64.toInt_inj.1 hexact
    exact (hgives _ _).2 ⟨by rw [hn], rfl⟩
  · exact ((arithmetic_wraps failing Store.global .initial).2.2.1 1).1 ⟨.initial, 4, rfl⟩

end Arith

end MonkeyLang
