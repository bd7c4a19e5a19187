/-
Programs without function literals come to their end. Evaluation follows the syntax unless a function is
called, and functions come from function literals only: no operator, subscript or built-in function makes
one. So an evaluation needs no more depth than the expression has (`halts_expr`), and a store without
functions stays one (`function_free_programs_halt`). What is printed comes to its end as well, also where
arrays hold themselves.
-/
import MonkeyLang.Proofs.Store.Contents
import MonkeyLang.Proofs.Store.Reachable
import MonkeyLang.Proofs.Value.Layout
import MonkeyLang.Session

namespace MonkeyLang

/-! ## Depth of syntax -/

mutual

/-- How deep expressions lie inside each other, this one included. -/
def Expr.depth : Expr → Nat
  | .ident _ | .int _ | .bool _ | .string _ => 1
  | .array es => Expr.maxDepth es + 1
  | .hash ps => Expr.maxPairDepth ps + 1
  | .function _ body => Stmt.maxDepth body + 1
  | .unary _ e => e.depth + 1
  | .binary _ l r => max l.depth r.depth + 1
  | .cond c t none => max c.depth (Stmt.maxDepth t) + 1
  | .cond c t (some a) => max c.depth (max (Stmt.maxDepth t) (Stmt.maxDepth a)) + 1
  | .call f args => max f.depth (Expr.maxDepth args) + 1
  | .index e i => max e.depth i.depth + 1

def Expr.maxDepth : List Expr → Nat
  | [] => 0
  | e :: es => max e.depth (Expr.maxDepth es)

def Expr.maxPairDepth : List (Expr × Expr) → Nat
  | [] => 0
  | (k, v) :: ps => max (max k.depth v.depth) (Expr.maxPairDepth ps)

def Stmt.depth : Stmt → Nat
  | .bind _ e => e.depth
  | .ret (some e) => e.depth
  | .ret none => 0
  | .expr e => e.depth

def Stmt.maxDepth : List Stmt → Nat
  | [] => 0
  | s :: ss => max s.depth (Stmt.maxDepth ss)

end

def Program.depth (p : Program) : Nat := Stmt.maxDepth p.statements

theorem Expr.depth_pos (e : Expr) : 0 < e.depth := by
  cases e with
  | cond c t a => cases a <;> simp [Expr.depth]
  | _ => simp [Expr.depth]

/-! ## Syntax without function literals -/

mutual

def Expr.functionFree : Expr → Bool
  | .ident _ | .int _ | .bool _ | .string _ => true
  | .array es => Expr.allFunctionFree es
  | .hash ps => Expr.pairsFunctionFree ps
  | .function _ _ => false
  | .unary _ e => e.functionFree
  | .binary _ l r => l.functionFree && r.functionFree
  | .cond c t none => c.functionFree && Stmt.allFunctionFree t
  | .cond c t (some a) => c.functionFree && Stmt.allFunctionFree t && Stmt.allFunctionFree a
  | .call f args => f.functionFree && Expr.allFunctionFree args
  | .index e i => e.functionFree && i.functionFree

def Expr.allFunctionFree : List Expr → Bool
  | [] => true
  | e :: es => e.functionFree && Expr.allFunctionFree es

def Expr.pairsFunctionFree : List (Expr × Expr) → Bool
  | [] => true
  | (k, v) :: ps => k.functionFree && v.functionFree && Expr.pairsFunctionFree ps

def Stmt.functionFree : Stmt → Bool
  | .bind _ e => e.functionFree
  | .ret (some e) => e.functionFree
  | .ret none => true
  | .expr e => e.functionFree

def Stmt.allFunctionFree : List Stmt → Bool
  | [] => true
  | s :: ss => s.functionFree && Stmt.allFunctionFree ss

end

def Program.functionFree (p : Program) : Bool := Stmt.allFunctionFree p.statements

namespace Eval

variable {α β : Type}

/-! ## Evaluations that halt -/

/-- On every store without functions, the evaluation comes to an end and leaves such a store. -/
def Halts (e : Eval α) : Prop :=
  ∀ m : Machine, m.store.closures = #[] → ∃ r m', e.run m = some (r, m') ∧ m'.store.closures = #[]

theorem halts_pure (a : α) : Halts (pure a) := fun m hm => ⟨.ok a, m, rfl, hm⟩

theorem halts_signal (s : Signal) : Halts (signal s : Eval α) := fun m hm => ⟨.error s, m, rfl, hm⟩

theorem Halts.bind {e : Eval α} {f : α → Eval β} (he : Halts e) (hf : ∀ a, Halts (f a)) : Halts (e >>= f) := by
  intro m hm
  obtain ⟨r, m₁, hr, hm₁⟩ := he m hm
  cases r with
  | ok a =>
    rw [run_bind_ok hr]
    exact hf a m₁ hm₁
  | error s => exact ⟨.error s, m₁, run_bind_error hr f, hm₁⟩

theorem halts_ofExcept (x : Except RuntimeError α) : Halts (ofExcept x) := by
  cases x with
  | ok a => exact halts_pure a
  | error e => exact halts_signal _

theorem halts_store : Halts Eval.store := fun m hm => ⟨.ok m.store, m, rfl, hm⟩

theorem halts_update {f : Store → α × Store} (h : ∀ s, (f s).2.closures = s.closures) : Halts (update f) :=
  fun m hm => ⟨.ok (f m.store).1, ⟨(f m.store).2, m.output⟩, rfl, (h m.store).trans hm⟩

theorem closures_tailOf (s : Store) (args : List Value) : (Builtin.tailOf s args).2.closures = s.closures := by
  unfold Builtin.tailOf
  split
  · rfl
  · split <;> rfl

theorem closures_pushTo (s : Store) (args : List Value) : (Builtin.pushTo s args).2.closures = s.closures := by
  unfold Builtin.pushTo
  split <;> rfl

/-- A built-in function makes no function. -/
theorem closures_builtin (b : Builtin) (args : List Value) (m : Machine) :
    (b.apply args m).2.store.closures = m.store.closures := by
  cases b with
  | tail => exact closures_tailOf m.store args
  | push => exact closures_pushTo m.store args
  | puts => exact congrArg Store.closures (Invariant.store_printAll args m)
  | len | head | last => rfl

theorem halts_builtin (b : Builtin) (args : List Value) : Halts (builtin b args) := by
  intro m hm
  have hclosures := closures_builtin b args m
  unfold run builtin
  generalize b.apply args m = x at hclosures ⊢
  obtain ⟨_ | v, m'⟩ := x
  · exact ⟨_, m', rfl, hclosures.trans hm⟩
  · exact ⟨_, m', rfl, hclosures.trans hm⟩

/-! ## Rules -/

section Rules

variable {expr : Expr → FrameRef → Eval Value} {n : Nat}
  (hexpr : ∀ e r, e.functionFree = true → e.depth ≤ n → Halts (expr e r)) (r : FrameRef)

include hexpr

theorem halts_all {es : List Expr} (hfree : Expr.allFunctionFree es = true) (hn : Expr.maxDepth es ≤ n) :
    Halts (all expr r es) := by
  induction es with
  | nil => exact halts_pure []
  | cons e es ih =>
    simp only [Expr.allFunctionFree, Bool.and_eq_true] at hfree
    simp only [Expr.maxDepth, Nat.max_le] at hn
    exact (hexpr e r hfree.1 hn.1).bind fun v => (ih hfree.2 hn.2).bind fun vs => halts_pure _

omit hexpr in
theorem halts_keyOf (v : Value) : Halts (keyOf v) := by
  unfold keyOf
  split
  · exact halts_pure _
  · exact halts_signal _

theorem halts_pairs (h : Hash) {ps : List (Expr × Expr)} (hfree : Expr.pairsFunctionFree ps = true)
    (hn : Expr.maxPairDepth ps ≤ n) : Halts (pairs expr r h ps) := by
  induction ps generalizing h with
  | nil => exact halts_pure h
  | cons p ps ih =>
    simp only [Expr.pairsFunctionFree, Bool.and_eq_true] at hfree
    simp only [Expr.maxPairDepth, Nat.max_le] at hn
    exact (hexpr p.1 r hfree.1.1 hn.1.1).bind fun k => (halts_keyOf k).bind fun key =>
      (hexpr p.2 r hfree.1.2 hn.1.2).bind fun v => ih _ hfree.2 hn.2

theorem halts_statement {st : Stmt} (hfree : st.functionFree = true) (hn : st.depth ≤ n) :
    Halts (statement expr r st) := by
  cases st with
  | bind name e =>
    have hdefine : ∀ v, Halts (define r name v) := fun v => halts_update fun s => rfl
    exact (hexpr e r hfree hn).bind fun v => (hdefine v).bind fun _ => halts_pure v
  | ret value =>
    cases value with
    | none => exact halts_signal _
    | some e => exact (hexpr e r hfree hn).bind fun v => halts_signal _
  | expr e => exact hexpr e r hfree hn

theorem halts_statementsAfter (v : Value) {ss : List Stmt} (hfree : Stmt.allFunctionFree ss = true)
    (hn : Stmt.maxDepth ss ≤ n) : Halts (statementsAfter expr r v ss) := by
  induction ss generalizing v with
  | nil => exact halts_pure v
  | cons st ss ih =>
    simp only [Stmt.allFunctionFree, Bool.and_eq_true] at hfree
    simp only [Stmt.maxDepth, Nat.max_le] at hn
    exact (halts_statement hexpr r hfree.1 hn.1).bind fun w => ih w hfree.2 hn.2

theorem halts_statements {ss : List Stmt} (hfree : Stmt.allFunctionFree ss = true) (hn : Stmt.maxDepth ss ≤ n) :
    Halts (statements expr r ss) :=
  halts_statementsAfter hexpr r .null hfree hn

omit hexpr in
theorem halts_name (x : String) : Halts (name r x) := by
  unfold name
  split
  · exact halts_pure _
  · refine halts_store.bind fun s => ?_
    split
    · exact halts_pure _
    · exact halts_signal _

omit hexpr r in
/-- There is no function to call, so that no body of a function is run. -/
theorem halts_apply (expr : Expr → FrameRef → Eval Value) (f : Value) (args : List Value) :
    Halts (apply expr f args) := by
  unfold apply
  split
  · next x =>
    intro m hm
    -- the reference leads nowhere: the call fails before any body could be run
    have hnone : m.store.closure? x = none := by simp [Store.closure?, hm]
    refine ⟨.error (.failed (.notCallable .function)), m, ?_, hm⟩
    rw [run_bind_ok (show Eval.store.run m = some (.ok m.store, m) from rfl), hnone]
    rfl
  · exact halts_builtin _ args
  · exact halts_signal _

theorem halts_level {e : Expr} (hfree : e.functionFree = true) (hn : e.depth ≤ n + 1) :
    Halts (level expr e r) := by
  cases e with
  | ident x => exact halts_name r x
  | int n => exact halts_pure _
  | bool b => exact halts_pure _
  | string x => exact halts_pure _
  | array es =>
    have hmake : ∀ vs : Array Value, Halts (update (·.newArray vs)) := fun vs => halts_update fun s => rfl
    have hes : Expr.maxDepth es ≤ n := Nat.le_of_succ_le_succ hn
    exact (halts_all hexpr r hfree hes).bind fun vs => (hmake _).bind fun x => halts_pure _
  | hash ps =>
    have hmake : ∀ h : Hash, Halts (update (·.newHash h)) := fun h => halts_update fun s => rfl
    have hps : Expr.maxPairDepth ps ≤ n := Nat.le_of_succ_le_succ hn
    exact (halts_pairs hexpr r .empty hfree hps).bind fun h => (hmake h).bind fun x => halts_pure _
  | function params body => exact nomatch hfree
  | unary op e => exact (hexpr e r hfree (Nat.le_of_succ_le_succ hn)).bind fun v => halts_ofExcept _
  | binary op a b =>
    simp only [Expr.functionFree, Bool.and_eq_true] at hfree
    simp only [Expr.depth, Nat.add_le_add_iff_right, Nat.max_le] at hn
    exact (hexpr a r hfree.1 hn.1).bind fun v => (hexpr b r hfree.2 hn.2).bind fun w => halts_ofExcept _
  | cond c yes no =>
    -- what holds of both blocks, whether or not there is a second one
    obtain ⟨⟨hc, hyes⟩, hno⟩ : (c.functionFree = true ∧ Stmt.allFunctionFree yes = true) ∧
        ∀ a, no = some a → Stmt.allFunctionFree a = true := by
      cases no <;> simpa [Expr.functionFree] using hfree
    obtain ⟨⟨hcn, hyesn⟩, hnon⟩ : (c.depth ≤ n ∧ Stmt.maxDepth yes ≤ n) ∧
        ∀ a, no = some a → Stmt.maxDepth a ≤ n := by
      cases no <;> simpa [Expr.depth, Nat.max_le, and_assoc] using hn
    refine (hexpr c r hc hcn).bind fun v => ?_
    split
    · exact halts_statements hexpr r hyes hyesn
    · split
      · next a => exact halts_statements hexpr r (hno a rfl) (hnon a rfl)
      · exact halts_pure _
  | call f args =>
    simp only [Expr.functionFree, Bool.and_eq_true] at hfree
    simp only [Expr.depth, Nat.add_le_add_iff_right, Nat.max_le] at hn
    exact (hexpr f r hfree.1 hn.1).bind fun v => (halts_all hexpr r hfree.2 hn.2).bind fun vs =>
      halts_apply expr v vs
  | index c k =>
    simp only [Expr.functionFree, Bool.and_eq_true] at hfree
    simp only [Expr.depth, Nat.add_le_add_iff_right, Nat.max_le] at hn
    exact (hexpr c r hfree.1 hn.1).bind fun v => (hexpr k r hfree.2 hn.2).bind fun w =>
      halts_store.bind fun s => halts_ofExcept _

end Rules

/-- An expression without function literals comes to an end at the depth of its syntax. -/
theorem halts_expr (n : Nat) : ∀ e r, e.functionFree = true → e.depth ≤ n → Halts (Eval.expr n e r) := by
  induction n with
  | zero =>
    intro e r _ hn
    have hpos := Expr.depth_pos e
    omega
  | succ n ih =>
    intro e r hfree hn
    exact halts_level ih r hfree hn

end Eval

/-! ## Sessions -/

/-- No function was made in the store, and nothing in it refers to one. -/
structure Store.FunctionFree (s : Store) : Prop where
  closures : s.closures = #[]
  values : s.HoldsOnly fun v => v.type ≠ .function

namespace Store

variable {s : Store}

theorem type_ne_function (h : s.closures = #[]) {v : Value} (hv : s.HasValue v) : v.type ≠ .function := by
  cases v with
  | function r => simp [HasValue, h] at hv
  | _ => exact nofun

theorem Extends.closures_eq_empty {t : Store} (h : s.Extends t) (ht : t.closures = #[]) : s.closures = #[] := by
  have hle : s.closures.size ≤ t.closures.size := size_le_of_getElem? fun i c hc => ⟨c, h.closures i c hc⟩
  rw [ht] at hle
  exact Array.size_eq_zero_iff.1 (Nat.le_zero.1 hle)

theorem WF.functionFree (hs : s.WF) (h : s.closures = #[]) : s.FunctionFree where
  closures := h
  values := {
    bindings := fun i f hf b hb => type_ne_function h (hs.bindings i f hf b hb)
    elements := fun i a ha v hv => type_ne_function h (hs.elements i a ha v hv)
    entries := fun i x hx e he => (hs.entries i x hx e he).imp (type_ne_function h) (type_ne_function h) }

end Store

namespace Machine

/-- Runs programs one after another, each to the depth of its own syntax. -/
def runPrograms (m : Machine) : List Program → Option (List Value × Machine)
  | [] => some ([], m)
  | p :: ps => do
    let (v, m) ← m.runProgram p.depth p
    let (vs, m) ← m.runPrograms ps
    return (v :: vs, m)

variable {m : Machine}

/-- An evaluation that halts leads from stores without functions to such stores, if it keeps them well-formed. -/
theorem exists_run_of_halts {e : Eval Value} (he : Eval.Halts e)
    (hkeeps : Eval.Invariant.wf.Keeps e m.store Store.HasValue) (hfree : m.store.FunctionFree) :
    ∃ r m', e.run m = some (r, m') ∧ m'.store.WF ∧ m'.store.FunctionFree ∧ m.store.Extends m'.store := by
  obtain ⟨r, m', hrun, hclosures⟩ := he m hfree.closures
  obtain ⟨hfollows, -⟩ := hkeeps m.output r m' hrun
  exact ⟨r, m', hrun, hfollows.store, hfollows.store.functionFree hclosures, hfollows.grows⟩

theorem exists_run_expr (hwf : m.store.WF) (hfree : m.store.FunctionFree) {e : Expr} (he : e.functionFree = true)
    (scope : FrameRef) : ∃ r m', (Eval.expr e.depth e scope).run m = some (r, m') ∧
      m'.store.WF ∧ m'.store.FunctionFree ∧ m.store.Extends m'.store :=
  exists_run_of_halts (Eval.halts_expr e.depth e scope he (Nat.le_refl _))
    (Eval.Invariant.wf.keeps_expr e.depth e scope m.store hwf trivial) hfree

theorem exists_run_statements (hwf : m.store.WF) (hfree : m.store.FunctionFree) {ss : List Stmt}
    (hss : Stmt.allFunctionFree ss = true) (scope : FrameRef) :
    ∃ r m', (Eval.statements (Eval.expr (Stmt.maxDepth ss)) scope ss).run m = some (r, m') ∧
      m'.store.WF ∧ m'.store.FunctionFree ∧ m.store.Extends m'.store :=
  exists_run_of_halts (Eval.halts_statements (Eval.halts_expr _) scope hss (Nat.le_refl _))
    (Eval.Invariant.keeps_statements (Eval.Invariant.wf.keeps_expr _) hwf trivial ss) hfree

theorem exists_runProgram (hwf : m.store.WF) (hfree : m.store.FunctionFree) {p : Program}
    (hp : p.functionFree = true) : ∃ v m', m.runProgram p.depth p = some (v, m') ∧
      m'.store.WF ∧ m'.store.FunctionFree ∧ v.type ≠ .function := by
  obtain ⟨r, m', hrun, hwf', hfree', -⟩ := exists_run_statements hwf hfree hp Store.global
  obtain ⟨v, hv⟩ : ∃ v, m.runProgram p.depth p = some (v, m') := by
    unfold runProgram runIn Program.depth
    rw [hrun]
    obtain (v | e) | v := r
    · exact ⟨_, rfl⟩
    · exact ⟨_, rfl⟩
    · exact ⟨_, rfl⟩
  refine ⟨v, m', hv, hwf', hfree', ?_⟩
  have hkeeps := Eval.Invariant.runIn_keeps .wf (s := m.store) (r := Store.global) hwf trivial hv
  rcases hkeeps.2 with hvalue | ⟨e, rfl⟩
  · exact Store.type_ne_function hfree'.closures hvalue
  · exact nofun

theorem exists_runPrograms (hwf : m.store.WF) (hfree : m.store.FunctionFree) {ps : List Program}
    (hps : ∀ p ∈ ps, p.functionFree = true) : ∃ vs m', m.runPrograms ps = some (vs, m') ∧
      m'.store.WF ∧ m'.store.FunctionFree ∧ ∀ v ∈ vs, v.type ≠ .function := by
  induction ps generalizing m with
  | nil => exact ⟨[], m, rfl, hwf, hfree, by simp⟩
  | cons p ps ih =>
    obtain ⟨hp, hps⟩ := List.forall_mem_cons.1 hps
    obtain ⟨v, m₁, hrun, hwf₁, hfree₁, hv⟩ := exists_runProgram hwf hfree hp
    obtain ⟨vs, m₂, hruns, hwf₂, hfree₂, hvs⟩ := ih hwf₁ hfree₁ hps
    refine ⟨v :: vs, m₂, ?_, hwf₂, hfree₂, List.forall_mem_cons.2 ⟨hv, hvs⟩⟩
    simp only [runPrograms, hrun, hruns, Option.bind_eq_bind, Option.bind_some, Option.pure_def]

/-- Programs without function literals come to an end one after another, each at the depth of its syntax.
There is no function in the store that they leave, nor in any that it grew from, and none among their values.

At every stage, whatever the store holds by then, an expression or a block without function literals comes to
an end at its own depth and leaves such a store again; and every value is laid out in full, an array inside
itself excepted, at the depth that the store allows for. -/
theorem function_free_programs_halt :
    (∀ ps : List Program, (∀ p ∈ ps, p.functionFree = true) →
      ∃ vs m, Machine.initial.runPrograms ps = some (vs, m) ∧ m.store.WF ∧
        (∀ s : Store, s.WF → s.Extends m.store → s.FunctionFree) ∧ ∀ v ∈ vs, v.type ≠ .function) ∧
    ∀ m : Machine, m.store.WF → m.store.FunctionFree →
      (∀ e scope, e.functionFree = true → ∃ r m', (Eval.expr e.depth e scope).run m = some (r, m') ∧
        m'.store.WF ∧ m'.store.FunctionFree ∧ m.store.Extends m'.store) ∧
      (∀ ss scope, Stmt.allFunctionFree ss = true →
        ∃ r m', (Eval.statements (Eval.expr (Stmt.maxDepth ss)) scope ss).run m = some (r, m') ∧
          m'.store.WF ∧ m'.store.FunctionFree ∧ m.store.Extends m'.store) ∧
      ∀ v, m.store.HasValue v → m.store.LaidOut [] v (m.store.outline v) ∧
        ∀ n, m.store.depthBound ≤ n → m.store.outlineWithin n [] v = m.store.outline v := by
  refine ⟨fun ps hps => ?_, fun m hwf hfree => ⟨fun e scope he => ?_, fun ss scope hss => ?_, fun v hv => ?_⟩⟩
  · have hinitial : Store.initial.FunctionFree := Store.wf_initial.functionFree rfl
    obtain ⟨vs, m, hrun, hwf, hfree, hvs⟩ := exists_runPrograms (m := .initial) Store.wf_initial hinitial hps
    refine ⟨vs, m, hrun, hwf, fun s hs hgrows => hs.functionFree ?_, hvs⟩
    exact hgrows.closures_eq_empty hfree.closures
  · exact exists_run_expr hwf hfree he scope
  · exact exists_run_statements hwf hfree hss scope
  · exact ⟨hwf.laidOut_outline hv, fun n hn => hwf.outlineWithin_eq_outline hv hn⟩

/-- `let a = [1]; push(a, a); puts(a, {"k": a});` -/
def looping : Program :=
  ⟨[.bind "a" (.array [.int 1]), .expr (.call (.ident "push") [.ident "a", .ident "a"]),
    .expr (.call (.ident "puts") [.ident "a", .hash [(.string "k", .ident "a")]])]⟩

/-- `if (len) { a[1](a) }` -/
def calling : Program :=
  ⟨[.expr (.cond (.ident "len") [.expr (.call (.index (.ident "a") (.int 1)) [.ident "a"])] none)]⟩

/-- The first program prints an array that holds itself, and the second one takes it for a function. -/
theorem function_free_programs_halt_looping : ∃ m,
    Machine.initial.runPrograms [looping, calling] = some ([.null, .error (.notCallable .array)], m) ∧
    m.output = "[1, [...]]\n\x7b k: [1, [...]] \x7d\n" ∧ m.store.FunctionFree ∧
    m.store.LaidOut [] (.array ⟨0⟩) (m.store.outline (.array ⟨0⟩)) := by
  obtain ⟨hprograms, hstage⟩ := function_free_programs_halt
  have hfree : ∀ p ∈ [looping, calling], p.functionFree = true := by decide
  obtain ⟨vs, m, hrun, hwf, hgrew, -⟩ := hprograms [looping, calling] hfree
  obtain ⟨m', hrun', houtput, hsize⟩ : ∃ m',
      Machine.initial.runPrograms [looping, calling] = some ([.null, .error (.notCallable .array)], m') ∧
      m'.output = "[1, [...]]\n\x7b k: [1, [...]] \x7d\n" ∧ m'.store.arrays.size = 1 :=
    ⟨_, rfl, by decide +kernel, rfl⟩
  cases hrun.symm.trans hrun'
  have hnone := hgrew m.store hwf (.refl _)
  have hvalue : m.store.HasValue (.array ⟨0⟩) := by simp [Store.HasValue, hsize]
  exact ⟨m, hrun', houtput, hnone, ((hstage m hwf hnone).2.2 _ hvalue).1⟩

end Machine

end MonkeyLang
