/-
The store only grows. However an evaluation ends, what was in the store before is still there: arrays may
have become longer, scopes may bind more names or bind them to other values, and nothing else has changed
(`Extends`). What a literal or the tail of an array makes is new, and identical to nothing that was there
before (`evaluation_grows`).
-/
import MonkeyLang.Proofs.Eval.Invariant

namespace MonkeyLang

namespace Store

variable {s t u : Store} {v w : Value}

/-! ## New objects -/

/-- An array, a hash or a function of `t` that `s` does not have. -/
def New (s t : Store) (v : Value) : Prop := t.HasValue v ∧ ¬ s.HasValue v

theorem New.of_extends (h : s.Extends t) (hv : t.New u v) : s.New u v :=
  ⟨hv.1, fun hs => hv.2 (h.hasValue hs)⟩

/-- What one store has and the other does not is not the same object. -/
theorem New.identical_eq_false (h : s.New t v) (hw : s.HasValue w) :
    v.identical w = false ∧ w.identical v = false := by
  have hne : v ≠ w := fun heq => h.2 (heq ▸ hw)
  constructor
  · rw [Bool.eq_false_iff, ne_eq, Value.identical_iff]
    exact fun hid => hne hid.1
  · rw [Bool.eq_false_iff, ne_eq, Value.identical_iff]
    exact fun hid => hne hid.1.symm

theorem new_newArray (s : Store) (vs : Array Value) : s.New (s.newArray vs).2 (.array (s.newArray vs).1) := by
  simp [New, HasValue, newArray]

theorem new_newHash (s : Store) (h : Hash) : s.New (s.newHash h).2 (.hash (s.newHash h).1) := by
  simp [New, HasValue, newHash]

theorem new_newClosure (s : Store) (c : Closure) : s.New (s.newClosure c).2 (.function (s.newClosure c).1) := by
  simp [New, HasValue, newClosure]

/-- All that was in `s` is still in `t`, and whatever else is in `t` is another object. -/
structure Grows (s t : Store) : Prop extends Extends s t where
  distinct : ∀ v w, s.New t v → s.HasValue w → v.identical w = false ∧ w.identical v = false

theorem Extends.grows (h : s.Extends t) : s.Grows t := ⟨h, fun _ _ hv hw => hv.identical_eq_false hw⟩

end Store

/-- The literals of arrays, hashes and functions. -/
def Expr.MakesObject : Expr → Prop
  | .array _ | .hash _ | .function _ _ => True
  | _ => False

namespace Eval

/-- Every change that an evaluation makes to the store extends it. -/
def Invariant.growing : Invariant where
  store _ := True
  value _ _ := True
  scope _ _ := True
  grows := Store.Extends
  grows_refl := Store.Extends.refl
  grows_trans := Store.Extends.trans
  value_mono _ _ := trivial
  scope_mono _ _ := trivial
  atomic _ _ := trivial
  element _ _ := trivial
  entry _ _ := trivial
  lookup _ _ := trivial
  newArray {s vs} _ _ := ⟨trivial, Store.extends_newArray s vs, trivial⟩
  newHash {s h} _ _ _ := ⟨trivial, Store.extends_newHash s h, trivial⟩
  newClosure {s c} _ _ := ⟨trivial, Store.extends_newClosure s c, trivial⟩
  newFrame {s _ c} _ _ := ⟨trivial, Store.extends_pushFrame s ⟨[], some c.scope⟩, trivial⟩
  define {s r name v} _ _ _ := ⟨trivial, Store.extends_define s r name v⟩
  append {s r v} _ _ _ := ⟨trivial, Store.extends_append s r v⟩

variable {α β : Type} {m m' : Machine}

theorem Invariant.Keeps.extends {e : Eval α} {Q : Store → α → Prop} {x : Except Signal α}
    (h : Invariant.growing.Keeps e m.store Q) (hx : e.run m = some (x, m')) : m.store.Extends m'.store :=
  (h m.output x m' hx).1.grows

/-! ## Literals -/

/-- An evaluation in two parts yields a value only if both parts do. -/
theorem exists_of_run_bind_ok {e : Eval α} {f : α → Eval β} {b : β} (h : (e >>= f).run m = some (.ok b, m')) :
    ∃ a m₁, e.run m = some (.ok a, m₁) ∧ (f a).run m₁ = some (.ok b, m') := by
  rw [run_bind] at h
  split at h
  · next a m₁ ha => exact ⟨a, m₁, ha, h⟩
  · cases h
  · cases h

/-- To evaluate a literal of an array, a hash or a function makes a new one. -/
theorem new_of_literal {depth : Nat} {e : Expr} {scope : FrameRef} {v : Value} (he : e.MakesObject)
    (h : (expr depth e scope).run m = some (.ok v, m')) : m.store.New m'.store v := by
  obtain _ | n := depth
  · cases h
  have hexpr := Invariant.growing.keeps_expr n
  cases e with
  | array es =>
    obtain ⟨vs, m₁, hvs, hnew⟩ := exists_of_run_bind_ok h
    have hext := (Invariant.keeps_all hexpr trivial trivial es).extends hvs
    cases hnew
    exact (Store.new_newArray m₁.store _).of_extends hext
  | hash ps =>
    obtain ⟨x, m₁, hx, hnew⟩ := exists_of_run_bind_ok h
    have hext := (Invariant.keeps_pairs hexpr trivial trivial ps (Hash.holds_empty _) Hash.keyed_empty).extends hx
    cases hnew
    exact (Store.new_newHash m₁.store x).of_extends hext
  | function params body =>
    cases h
    exact Store.new_newClosure m.store ⟨params, body, scope⟩
  | _ => exact he.elim

/-- The tail of an array is null or a new array. -/
theorem new_of_tailOf {s : Store} {args : List Value} {v : Value} (h : (Builtin.tailOf s args).1 = .ok v) :
    v = .null ∨ s.New (Builtin.tailOf s args).2 v := by
  unfold Builtin.tailOf at h ⊢
  split at h
  · cases h
  · next r hr =>
    split at h
    · cases h
      exact .inl rfl
    · next first rest he =>
      cases h
      exact .inr (Store.new_newArray s rest.toArray)

theorem new_of_tail {args : List Value} {v : Value} (h : (builtin .tail args).run m = some (.ok v, m')) :
    v = .null ∨ m.store.New m'.store v := by
  have htail : (Builtin.tailOf m.store args).1 = .ok v → _ := new_of_tailOf
  simp only [run, builtin, Builtin.apply] at h
  generalize Builtin.tailOf m.store args = x at h htail
  obtain ⟨_ | w, t⟩ := x
  · cases h
  · cases h
    exact htail rfl

end Eval

open Eval.Invariant in
/-- However an evaluation ends, the store has grown: every array that was there is a prefix of what it is
now, every hash and every function is as it was, every scope has its outer scope and every name that it
bound, and all other objects are distinct from those that were there. At any point on the way, a literal
of an array, a hash or a function makes a new object, and so does the tail of an array. -/
theorem evaluation_grows (s : Store) (output : String) (depth : Nat) (scope : FrameRef) :
    (∀ e x m, (Eval.expr depth e scope).run ⟨s, output⟩ = some (x, m) → s.Grows m.store) ∧
    (∀ st x m, (Eval.statement (Eval.expr depth) scope st).run ⟨s, output⟩ = some (x, m) → s.Grows m.store) ∧
    (∀ block x m, (Eval.statements (Eval.expr depth) scope block).run ⟨s, output⟩ = some (x, m) →
      s.Grows m.store) ∧
    (∀ p v m, (Machine.mk s output).runIn depth scope p = some (v, m) → s.Grows m.store) ∧
    (∀ f args x m, (Eval.apply (Eval.expr depth) f args).run ⟨s, output⟩ = some (x, m) → s.Grows m.store) ∧
    ∀ m, s.Extends m.store →
      (∀ e, e.MakesObject → ∀ v m', (Eval.expr depth e scope).run m = some (.ok v, m') → s.New m'.store v) ∧
      (∀ args v m', (Eval.apply (Eval.expr depth) (.builtin .tail) args).run m = some (.ok v, m') →
        v = .null ∨ s.New m'.store v) := by
  have hexpr := growing.keeps_expr depth
  refine ⟨fun e x m h => ?_, fun st x m h => ?_, fun block x m h => ?_, fun p v m h => ?_,
    fun f args x m h => ?_, fun m hm => ⟨fun e he v m' h => ?_, fun args v m' h => ?_⟩⟩
  · exact ((hexpr e scope s trivial trivial).extends (m := ⟨s, output⟩) h).grows
  · exact ((keeps_statement hexpr trivial trivial st).extends (m := ⟨s, output⟩) h).grows
  · exact ((keeps_statements hexpr trivial trivial block).extends (m := ⟨s, output⟩) h).grows
  · exact (growing.runIn_keeps trivial trivial h).1.grows.grows
  · exact ((keeps_apply hexpr trivial f fun _ _ => trivial).extends (m := ⟨s, output⟩) h).grows
  · exact (Eval.new_of_literal he h).of_extends hm
  · exact (Eval.new_of_tail h).imp_right (·.of_extends hm)

/-- A function that appends `[2]` to the array `xs` and then fails. -/
def appending : Store :=
  ⟨#[⟨[("f", .function ⟨0⟩), ("xs", .array ⟨0⟩)], none⟩], #[#[.int 1]], #[],
    #[⟨[], [.expr (.call (.ident "push") [.ident "xs", .array [.int 2]]), .expr (.ident "y")], ⟨0⟩⟩]⟩

/-- The call fails halfway: the array has become longer, and an array made later is a third one. -/
theorem evaluation_grows_appending :
    ∃ m, (Eval.apply (Eval.expr 3) (.function ⟨0⟩) []).run ⟨appending, ""⟩ =
        some (.error (.failed (.undefinedName "y")), m) ∧
      m.store.elements ⟨0⟩ = #[.int 1, .array ⟨1⟩] ∧ appending.Grows m.store ∧
      ∃ m', (Eval.expr 3 (.array []) ⟨0⟩).run m = some (.ok (.array ⟨2⟩), m') ∧
        appending.New m'.store (.array ⟨2⟩) := by
  obtain ⟨-, -, -, -, hcall, hnew⟩ := evaluation_grows appending "" 3 ⟨0⟩
  have hgrows := hcall (.function ⟨0⟩) [] _ _ rfl
  refine ⟨_, rfl, rfl, hgrows, _, rfl, ?_⟩
  exact (hnew _ hgrows.toExtends).1 (.array []) trivial _ _ rfl

end MonkeyLang
