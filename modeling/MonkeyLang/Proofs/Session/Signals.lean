/-
Signals: a return or an error ends everything that it stands in, up to the nearest call. Evaluation is
taken apart into the sites where an expression can stand in another one (`Site`), each with the parts that
are evaluated before it (`Site.before`). Once these gave values, a signal at the site is the outcome of the
whole, with the machine as the signal left it (`run_level_fill`); so it is through any number of sites
(`Comes.gives_fill`). A call catches a return and lets an error pass (`gives_call_iff`).
-/
import MonkeyLang.Proofs.Session.Steps

namespace MonkeyLang

/-! ## Sites -/

/-- A statement around an expression. -/
inductive Holder where
  | bind (name : String)
  | ret
  | expr

def Holder.fill : Holder → Expr → Stmt
  | .bind name, e => .bind name e
  | .ret, e => .ret (some e)
  | .expr, e => .expr e

/-- A place for an expression in another one, outside of function bodies. -/
inductive Site where
  | operand (op : UnaryOp)
  | left (op : BinaryOp) (r : Expr)
  | right (op : BinaryOp) (l : Expr)
  | element (es es' : List Expr)
  | key (ps : List (Expr × Expr)) (v : Expr) (ps' : List (Expr × Expr))
  | value (ps : List (Expr × Expr)) (k : Expr) (ps' : List (Expr × Expr))
  | condition (yes : List Stmt) (no : Option (List Stmt))
  | thenBranch (c : Expr) (ss : List Stmt) (holder : Holder) (ss' : List Stmt) (no : Option (List Stmt))
  | elseBranch (c : Expr) (yes : List Stmt) (ss : List Stmt) (holder : Holder) (ss' : List Stmt)
  | callee (args : List Expr)
  | argument (f : Expr) (es es' : List Expr)
  | collection (k : Expr)
  | subscript (c : Expr)

/-- Something that is evaluated on the way to a site. -/
inductive Task where
  | value (e : Expr)
  /-- The key of a pair, which must be usable as one. -/
  | key (e : Expr)
  /-- A condition that selects a branch. -/
  | test (c : Expr) (b : Bool)
  | statement (s : Stmt)

def Task.accepts : Task → Value → Bool
  | .key _, v => v.key?.isSome
  | .test _ b, v => v.truthy == b
  | _, _ => true

/-- A key and a value for each pair. -/
def Task.ofPairs (ps : List (Expr × Expr)) : List Task := ps.flatMap fun p => [.key p.1, .value p.2]

namespace Site

def fill : Site → Expr → Expr
  | .operand op, e => .unary op e
  | .left op r, e => .binary op e r
  | .right op l, e => .binary op l e
  | .element es es', e => .array (es ++ e :: es')
  | .key ps v ps', e => .hash (ps ++ (e, v) :: ps')
  | .value ps k ps', e => .hash (ps ++ (k, e) :: ps')
  | .condition yes no, e => .cond e yes no
  | .thenBranch c ss holder ss' no, e => .cond c (ss ++ holder.fill e :: ss') no
  | .elseBranch c yes ss holder ss', e => .cond c yes (some (ss ++ holder.fill e :: ss'))
  | .callee args, e => .call e args
  | .argument f es es', e => .call f (es ++ e :: es')
  | .collection k, e => .index e k
  | .subscript c, e => .index c e

/-- What is evaluated before the site, in order. -/
def before : Site → List Task
  | .operand _ | .left _ _ | .condition _ _ | .callee _ | .collection _ => []
  | .right _ l => [.value l]
  | .element es _ => es.map .value
  | .key ps _ _ => Task.ofPairs ps
  | .value ps k _ => Task.ofPairs ps ++ [.key k]
  | .thenBranch c ss _ _ _ => .test c true :: ss.map .statement
  | .elseBranch c _ ss _ _ => .test c false :: ss.map .statement
  | .argument f es _ => .value f :: es.map .value
  | .subscript c => [.value c]

/-- An expression inside one site after another, the outermost first. -/
def fillAll (ks : List Site) (e : Expr) : Expr := ks.foldr fill e

end Site

namespace Eval

section Rules

variable (ev : Expr → FrameRef → Eval Value) (scope : FrameRef)

abbrev task : Task → Eval Value
  | .value e | .key e | .test e _ => ev e scope
  | .statement s => statement ev scope s

/-- Tasks that give values, one after another, each one that its task accepts. -/
inductive PassesWith : List Task → Machine → List Value → Machine → Prop where
  | nil (m : Machine) : PassesWith [] m [] m
  | cons {t : Task} {ts : List Task} {m m₁ m₂ : Machine} {v : Value} {vs : List Value}
    (ht : (task ev scope t).run m = some (.ok v, m₁)) (hv : t.accepts v = true) (hts : PassesWith ts m₁ vs m₂) :
    PassesWith (t :: ts) m (v :: vs) m₂

end Rules

variable {ev ev' : Expr → FrameRef → Eval Value} {scope : FrameRef} {m m₁ m₂ : Machine} {vs : List Value} {σ : Signal}

theorem PassesWith.mono (hev : ∀ e r, Refines (ev e r) (ev' e r)) {ts : List Task} (h : PassesWith ev scope ts m vs m₁) :
    PassesWith ev' scope ts m vs m₁ := by
  induction h with
  | nil m => exact .nil m
  | @cons t ts m m₁ m₂ v vs ht hv _ ih =>
    refine .cons ?_ hv ih
    cases t with
    | statement s => exact refines_statement hev scope s _ _ ht
    | _ => exact hev _ scope _ _ ht

theorem PassesWith.of_append {ts ts' : List Task} (h : PassesWith ev scope (ts ++ ts') m vs m₂) :
    ∃ us ws m₁, vs = us ++ ws ∧ PassesWith ev scope ts m us m₁ ∧ PassesWith ev scope ts' m₁ ws m₂ := by
  induction ts generalizing m vs with
  | nil => exact ⟨[], vs, m, rfl, .nil m, h⟩
  | cons t ts ih =>
    obtain _ | ⟨ht, hv, hts⟩ := h
    obtain ⟨us, ws, m₁, rfl, hus, hws⟩ := ih hts
    exact ⟨_ :: us, ws, m₁, rfl, .cons ht hv hus, hws⟩

/-! ## A signal at a site -/

theorem run_all {es : List Expr} (h : PassesWith ev scope (es.map .value) m vs m₁) :
    (all ev scope es).run m = some (.ok vs, m₁) := by
  induction es generalizing m vs with
  | nil =>
    cases h
    rfl
  | cons e es ih =>
    obtain _ | ⟨he, -, hes⟩ := h
    rw [all, run_bind_ok he, run_bind_ok (ih hes), run_pure]

theorem run_all_signal {es es' : List Expr} {e : Expr} (h : PassesWith ev scope (es.map .value) m vs m₁)
    (he : (ev e scope).run m₁ = some (.error σ, m₂)) :
    (all ev scope (es ++ e :: es')).run m = some (.error σ, m₂) := by
  induction es generalizing m vs with
  | nil =>
    cases h
    rw [List.nil_append, all, run_bind_error he]
  | cons x es ih =>
    obtain _ | ⟨hx, -, hes⟩ := h
    rw [List.cons_append, all, run_bind_ok hx, run_bind_error (ih hes)]

/-- Pairs behind others that gave values go on with a longer hash. -/
theorem run_pairs_append {ps : List (Expr × Expr)} (h : PassesWith ev scope (Task.ofPairs ps) m vs m₁) (x : Hash)
    (ps' : List (Expr × Expr)) : ∃ y, (pairs ev scope x (ps ++ ps')).run m = (pairs ev scope y ps').run m₁ := by
  induction ps generalizing m vs x with
  | nil =>
    cases h
    exact ⟨x, rfl⟩
  | cons p ps ih =>
    obtain _ | ⟨hk, hkey, _ | ⟨hv, -, hps⟩⟩ := h
    obtain ⟨k, hk'⟩ := Option.isSome_iff_exists.1 hkey
    obtain ⟨y, hy⟩ := ih hps (x.insert k ⟨_, _⟩)
    refine ⟨y, ?_⟩
    rw [List.cons_append, pairs, run_bind_ok hk, keyOf, hk', run_bind_ok (run_pure k _), run_bind_ok hv]
    exact hy

/-- Statements behind others that gave values go on after the last of them. -/
theorem run_statementsAfter_of_passesWith {ss : List Stmt} (h : PassesWith ev scope (ss.map .statement) m vs m₁) (v : Value)
    (ss' : List Stmt) : ∃ w, (statementsAfter ev scope v (ss ++ ss')).run m = (statementsAfter ev scope w ss').run m₁ := by
  induction ss generalizing m vs v with
  | nil =>
    cases h
    exact ⟨v, rfl⟩
  | cons s ss ih =>
    obtain _ | ⟨hs, -, hss⟩ := h
    obtain ⟨w, hw⟩ := ih hss _
    exact ⟨w, (run_bind_ok hs _).trans hw⟩

theorem run_statement_fill {e : Expr} (holder : Holder) (he : (ev e scope).run m = some (.error σ, m₁)) :
    (statement ev scope (holder.fill e)).run m = some (.error σ, m₁) := by
  cases holder with
  | bind name => exact run_bind_error he _
  | ret => exact run_bind_error he _
  | expr => exact he

theorem run_statements_signal {ss ss' : List Stmt} {e : Expr} (holder : Holder)
    (h : PassesWith ev scope (ss.map .statement) m vs m₁) (he : (ev e scope).run m₁ = some (.error σ, m₂)) :
    (statements ev scope (ss ++ holder.fill e :: ss')).run m = some (.error σ, m₂) := by
  obtain ⟨w, hw⟩ := run_statementsAfter_of_passesWith h .null (holder.fill e :: ss')
  rw [statements, hw, statementsAfter, run_bind_error (run_statement_fill holder he)]

/-- A signal at a site that evaluation comes to is the outcome of the whole. -/
theorem run_level_fill {k : Site} {e : Expr} (h : PassesWith ev scope k.before m vs m₁)
    (he : (ev e scope).run m₁ = some (.error σ, m₂)) :
    (level ev (k.fill e) scope).run m = some (.error σ, m₂) := by
  cases k with
  | operand | left | condition | callee | collection =>
    cases h
    exact run_bind_error he _
  | right op l =>
    obtain _ | ⟨hl, -, _ | _⟩ := h
    rw [Site.fill, level, run_bind_ok hl, run_bind_error he]
  | subscript c =>
    obtain _ | ⟨hc, -, _ | _⟩ := h
    rw [Site.fill, level, run_bind_ok hc, run_bind_error he]
  | element es es' => rw [Site.fill, level, run_bind_error (run_all_signal h he)]
  | argument f es es' =>
    obtain _ | ⟨hf, -, hes⟩ := h
    rw [Site.fill, level, run_bind_ok hf, run_bind_error (run_all_signal hes he)]
  | key ps v ps' =>
    obtain ⟨y, hy⟩ := run_pairs_append h .empty ((e, v) :: ps')
    rw [pairs, run_bind_error he] at hy
    rw [Site.fill, level, run_bind_error hy]
  | value ps k ps' =>
    obtain ⟨us, ws, m', -, hps, _ | ⟨hk, hkey, _ | _⟩⟩ := PassesWith.of_append h
    obtain ⟨hashKey, hk'⟩ := Option.isSome_iff_exists.1 hkey
    obtain ⟨y, hy⟩ := run_pairs_append hps .empty ((k, e) :: ps')
    rw [pairs, run_bind_ok hk, keyOf, hk', run_bind_ok (run_pure hashKey _), run_bind_error he] at hy
    rw [Site.fill, level, run_bind_error hy]
  | thenBranch c ss holder ss' no =>
    obtain _ | ⟨hc, hv, hss⟩ := h
    refine (run_bind_ok hc _).trans ?_
    rw [if_pos (by simpa [Task.accepts] using hv)]
    exact run_statements_signal holder hss he
  | elseBranch c yes ss holder ss' =>
    obtain _ | ⟨hc, hv, hss⟩ := h
    refine (run_bind_ok hc _).trans ?_
    rw [if_neg (by simpa [Task.accepts] using hv)]
    exact run_statements_signal holder hss he

/-! ## Whatever the depth -/

/-- The expression ends in `o` and leaves `m'`, at some depth. -/
def Gives (scope : FrameRef) (e : Expr) (m : Machine) (o : Except Signal Value) (m' : Machine) : Prop :=
  ∃ n, (expr n e scope).run m = some (o, m')

/-- The statements end in `o` and leave `m'`, at some depth. -/
def BlockGives (scope : FrameRef) (ss : List Stmt) (m : Machine) (o : Except Signal Value) (m' : Machine) : Prop :=
  ∃ n, (statements (expr n) scope ss).run m = some (o, m')

/-- The tasks give values, at some depth. -/
def Passes (scope : FrameRef) (ts : List Task) (m : Machine) (vs : List Value) (m' : Machine) : Prop :=
  ∃ n, PassesWith (expr n) scope ts m vs m'

/-- Evaluation comes to the innermost of nested sites, the outermost first. -/
inductive Comes (scope : FrameRef) : List Site → Machine → Machine → Prop where
  | nil (m : Machine) : Comes scope [] m m
  | cons {k : Site} {ks : List Site} {vs : List Value} {m m₁ m₂ : Machine} (hk : Passes scope k.before m vs m₁)
    (hks : Comes scope ks m₁ m₂) : Comes scope (k :: ks) m m₂

variable {e : Expr} {ss : List Stmt} {o o' : Except Signal Value} {m' : Machine}

theorem Gives.unique (h : Gives scope e m o m₁) (h' : Gives scope e m o' m₂) : o' = o ∧ m₂ = m₁ := by
  obtain ⟨n, hn⟩ := h
  obtain ⟨k, hk⟩ := h'
  exact Prod.mk.inj (eq_of_refines (fun _ _ hk => refines_expr hk e scope) hn hk)

theorem Gives.iff (h : Gives scope e m o m₁) (o' : Except Signal Value) (m' : Machine) :
    Gives scope e m o' m' ↔ o' = o ∧ m' = m₁ :=
  ⟨h.unique, fun ⟨ho, hm⟩ => ho ▸ hm ▸ h⟩

theorem Gives.run_of_le (h : Gives scope e m o m₁) : ∃ n, ∀ k, n ≤ k → (expr k e scope).run m = some (o, m₁) := by
  obtain ⟨n, hn⟩ := h
  exact ⟨n, fun k hk => refines_expr hk e scope m _ hn⟩

/-- A subscript is worked out from the store that its two parts leave, and leaves it as it is. -/
theorem gives_subscript {scope : FrameRef} {c k : Expr} {m₀ m₁ m : Machine} {v w : Value}
    (hc : Gives scope c m₀ (.ok v) m₁) (hk : Gives scope k m₁ (.ok w) m) :
    Gives scope (.index c k) m₀ ((m.store.subscript v w).mapError .failed) m := by
  obtain ⟨n₁, hn₁⟩ := hc.run_of_le
  obtain ⟨n₂, hn₂⟩ := hk.run_of_le
  refine ⟨max n₁ n₂ + 1, ?_⟩
  rw [expr, level, run_bind_ok (hn₁ _ (Nat.le_max_left n₁ n₂)), run_bind_ok (hn₂ _ (Nat.le_max_right n₁ n₂))]
  show (ofExcept (m.store.subscript v w)).run m = _
  cases m.store.subscript v w <;> rfl

theorem BlockGives.unique (h : BlockGives scope ss m o m₁) (h' : BlockGives scope ss m o' m₂) : o' = o ∧ m₂ = m₁ := by
  obtain ⟨n, hn⟩ := h
  obtain ⟨k, hk⟩ := h'
  exact Prod.mk.inj (eq_of_refines (fun _ _ hk => refines_statements_expr hk scope ss) hn hk)

/-- Parts that give values and an expression after them, brought to a common depth. -/
theorem Passes.common {ts : List Task} (h : Passes scope ts m vs m₁) (he : Gives scope e m₁ o m₂) :
    ∃ n, PassesWith (expr n) scope ts m vs m₁ ∧ (expr n e scope).run m₁ = some (o, m₂) := by
  obtain ⟨n, hn⟩ := h
  obtain ⟨k, hk⟩ := he
  exact ⟨max n k, hn.mono fun e r => refines_expr (Nat.le_max_left n k) e r,
    refines_expr (Nat.le_max_right n k) e scope _ _ hk⟩

/-- A signal in nested sites, by induction from the innermost site out. -/
theorem Comes.gives_fill {ks : List Site} (h : Comes scope ks m m₁) (he : Gives scope e m₁ (.error σ) m₂) :
    Gives scope (Site.fillAll ks e) m (.error σ) m₂ := by
  induction h with
  | nil => exact he
  | cons hk _ ih =>
    obtain ⟨n, hn, he'⟩ := hk.common (ih he)
    exact ⟨n + 1, run_level_fill hn he'⟩

theorem BlockGives.of_signal (holder : Holder) (ss' : List Stmt) (h : Passes scope (ss.map .statement) m vs m₁)
    (he : Gives scope e m₁ (.error σ) m₂) : BlockGives scope (ss ++ holder.fill e :: ss') m (.error σ) m₂ := by
  obtain ⟨n, hn, he'⟩ := h.common he
  exact ⟨n, run_statements_signal holder hn he'⟩

theorem runIn_iff (p : Program) (v : Value) : (∃ n, m.runIn n scope p = some (v, m')) ↔
    ∃ o, BlockGives scope p.statements m o m' ∧ v = Machine.finalValue o := by
  simp only [Machine.runIn_eq, Option.map_eq_some_iff, BlockGives]
  constructor
  · rintro ⟨n, ⟨o, m₁⟩, hx, heq⟩
    cases heq
    exact ⟨o, ⟨n, hx⟩, rfl⟩
  · rintro ⟨o, ⟨n, hx⟩, rfl⟩
    exact ⟨n, (o, m'), hx, rfl⟩

/-! ## Calls -/

/-- The scope of a call and the machine with the arguments bound in it. -/
def enter (c : Closure) (vs : List Value) (m : Machine) : FrameRef × Machine :=
  let (scope, s) := m.store.newFrame c.scope
  (scope, ⟨(c.params.zip vs).foldl (fun s b => s.define scope b.1 b.2) s, m.output⟩)

theorem run_bindParams (scope : FrameRef) (ps : List String) (vs : List Value) (s : Store) (output : String) :
    (bindParams scope ps vs).run ⟨s, output⟩ =
      some (.ok (), ⟨(ps.zip vs).foldl (fun s b => s.define scope b.1 b.2) s, output⟩) := by
  induction ps generalizing vs s with
  | nil => rfl
  | cons p ps ih =>
    cases vs with
    | nil => rfl
    | cons v vs => exact ih vs (s.define scope p v)

theorem run_applyClosure {c : Closure} (hlen : c.params.length = vs.length) (m : Machine) :
    (applyClosure ev c vs).run m = (call (statements ev (enter c vs m).1 c.body)).run (enter c vs m).2 := by
  obtain ⟨s, output⟩ := m
  rw [applyClosure, if_pos hlen]
  exact run_bind_ok (run_bindParams ⟨s.frames.size⟩ c.params vs (s.newFrame c.scope).2 output) _

theorem run_call (body : Eval Value) (m : Machine) : (call body).run m =
    match body.run m with
    | some (.error (.returned v), m) => some (.ok v, m)
    | r => r := rfl

/-- A call ends in a value if its body does or returns, and in an error if its body does; never in a return. -/
theorem run_call_iff {body : Eval Value} : (call body).run m = some (o, m') ↔
    (∃ v, o = .ok v ∧ (body.run m = some (.ok v, m') ∨ body.run m = some (.error (.returned v), m'))) ∨
    ∃ e, o = .error (.failed e) ∧ body.run m = some (.error (.failed e), m') := by
  rw [run_call]
  generalize body.run m = r
  obtain _ | ⟨⟨_ | _⟩ | _, m₁⟩ := r <;> simp [eq_comm]

section Call

variable {f : Expr} {args : List Expr} {r : ClosureRef} {c : Closure}
  (h : Passes scope (.value f :: args.map .value) m (.function r :: vs) m₁) (hc : m₁.store.closure? r = some c)
  (hlen : c.params.length = vs.length)

include h hc hlen

/-- A function that is called runs its body, at every depth that the callee and the arguments need. -/
theorem gives_call_iff_run : Gives scope (.call f args) m o m' ↔
    ∃ n, (call (statements (expr n) (enter c vs m₁).1 c.body)).run (enter c vs m₁).2 = some (o, m') := by
  obtain ⟨n, hn⟩ := h
  have hrun : ∀ k, n ≤ k → (expr (k + 1) (.call f args) scope).run m =
      (call (statements (expr k) (enter c vs m₁).1 c.body)).run (enter c vs m₁).2 := by
    intro k hk
    obtain _ | ⟨hf, -, hargs⟩ := hn.mono fun e r => refines_expr hk e r
    have hstore : (store : Eval Store).run m₁ = some (.ok m₁.store, m₁) := rfl
    rw [expr, level, run_bind_ok hf, run_bind_ok (run_all hargs), apply, run_bind_ok hstore, hc]
    exact run_applyClosure hlen m₁
  constructor
  · rintro ⟨k, hk⟩
    refine ⟨max n k, (hrun _ (Nat.le_max_left n k)).symm.trans ?_⟩
    exact refines_expr (by omega) _ scope _ _ hk
  · rintro ⟨k, hk⟩
    refine ⟨max n k + 1, (hrun _ (Nat.le_max_left n k)).trans ?_⟩
    exact (refines_statements_expr (Nat.le_max_right n k) _ c.body).call _ _ hk

theorem gives_call_iff : Gives scope (.call f args) m o m' ↔
    (∃ v, o = .ok v ∧ (BlockGives (enter c vs m₁).1 c.body (enter c vs m₁).2 (.ok v) m' ∨
      BlockGives (enter c vs m₁).1 c.body (enter c vs m₁).2 (.error (.returned v)) m')) ∨
    ∃ e, o = .error (.failed e) ∧ BlockGives (enter c vs m₁).1 c.body (enter c vs m₁).2 (.error (.failed e)) m' := by
  rw [gives_call_iff_run h hc hlen]
  simp only [run_call_iff, BlockGives]
  constructor
  · rintro ⟨n, ⟨v, rfl, hv | hv⟩ | ⟨e, rfl, he⟩⟩
    · exact .inl ⟨v, rfl, .inl ⟨n, hv⟩⟩
    · exact .inl ⟨v, rfl, .inr ⟨n, hv⟩⟩
    · exact .inr ⟨e, rfl, n, he⟩
  · rintro (⟨v, rfl, ⟨n, hv⟩ | ⟨n, hv⟩⟩ | ⟨e, rfl, n, he⟩)
    · exact ⟨n, .inl ⟨v, rfl, .inl hv⟩⟩
    · exact ⟨n, .inl ⟨v, rfl, .inr hv⟩⟩
    · exact ⟨n, .inr ⟨e, rfl, he⟩⟩

end Call

/-! ## Signals as a whole -/

/-- A return or an error in nested sites that evaluation comes to is the outcome of the whole, of the block
with the whole in one of its statements, and of the program that this block is; the machine stays as the
signal left it. At a call, the body's return is the value of the call, its error is the error of the call,
and nothing else ends a call early. -/
theorem signal_ends_whole (scope : FrameRef) :
    (∀ ks e m m₁ m₂ σ, Comes scope ks m m₁ → Gives scope e m₁ (.error σ) m₂ →
      (∀ o m', Gives scope (Site.fillAll ks e) m o m' ↔ o = .error σ ∧ m' = m₂) ∧
      ∀ holder ss ss' vs m₀, Passes scope (ss.map .statement) m₀ vs m →
        (∀ o m', BlockGives scope (ss ++ Holder.fill holder (Site.fillAll ks e) :: ss') m₀ o m' ↔
          o = .error σ ∧ m' = m₂) ∧
        ∀ v m', (∃ n, m₀.runIn n scope ⟨ss ++ Holder.fill holder (Site.fillAll ks e) :: ss'⟩ = some (v, m')) ↔
          v = σ.value ∧ m' = m₂) ∧
    ∀ f args r c vs m m₁, Passes scope (.value f :: args.map .value) m (.function r :: vs) m₁ →
      m₁.store.closure? r = some c → c.params.length = vs.length →
      ∀ o m', Gives scope (.call f args) m o m' ↔
        (∃ v, o = .ok v ∧ (BlockGives (enter c vs m₁).1 c.body (enter c vs m₁).2 (.ok v) m' ∨
          BlockGives (enter c vs m₁).1 c.body (enter c vs m₁).2 (.error (.returned v)) m')) ∨
        ∃ e, o = .error (.failed e) ∧
          BlockGives (enter c vs m₁).1 c.body (enter c vs m₁).2 (.error (.failed e)) m' := by
  refine ⟨fun ks e m m₁ m₂ σ hks he => ?_, fun f args r c vs m m₁ h hc hlen o m' => gives_call_iff h hc hlen⟩
  have hwhole := hks.gives_fill he
  refine ⟨fun o m' => ⟨fun h => hwhole.unique h, ?_⟩, fun holder ss ss' vs m₀ hss => ?_⟩
  · rintro ⟨rfl, rfl⟩
    exact hwhole
  have hblock := BlockGives.of_signal holder ss' hss hwhole
  have hiff : ∀ o m', BlockGives scope (ss ++ Holder.fill holder (Site.fillAll ks e) :: ss') m₀ o m' ↔
      o = .error σ ∧ m' = m₂ := by
    refine fun o m' => ⟨fun h => hblock.unique h, ?_⟩
    rintro ⟨rfl, rfl⟩
    exact hblock
  refine ⟨hiff, fun v m' => ?_⟩
  rw [runIn_iff]
  simp only [hiff]
  constructor
  · rintro ⟨o, ⟨rfl, rfl⟩, rfl⟩
    exact ⟨rfl, rfl⟩
  · rintro ⟨rfl, rfl⟩
    exact ⟨_, ⟨rfl, rfl⟩, rfl⟩

/-- A return in an operand in an array, behind something printed, and a return in a body. -/
theorem signal_ends_whole_printed :
    let prints (n : Int64) : Expr := .call (.ident "puts") [.int n]
    let returns : Expr := .cond (.bool true) [.ret (some (.int 4))] none
    let printed : Machine := ⟨.initial, "1\n"⟩
    (∃ n, Machine.initial.runIn n Store.global
        ⟨[.expr (prints 1), .bind "x" (.array [.int 2, .unary .neg returns, prints 3])]⟩ =
      some (.int 4, printed)) ∧
    ∃ m', Gives Store.global (.call (.function ["a"] [.ret (some (.ident "a")), .expr (prints 3)]) [.int 5])
      printed (.ok (.int 5)) m' ∧ m'.output = "1\n" := by
  intro prints returns printed
  have hsites : Comes Store.global [.element [.int 2] [prints 3], .operand .neg] printed printed :=
    .cons ⟨1, .cons rfl rfl (.nil _)⟩ (.cons ⟨0, .nil _⟩ (.nil _))
  have hreturns : Gives Store.global returns printed (.error (.returned (.int 4))) printed := ⟨2, rfl⟩
  have hprints : Passes Store.global [.statement (.expr (prints 1))] .initial [.null] printed :=
    ⟨3, .cons (by decide +kernel) rfl (.nil _)⟩
  have hwhole := (signal_ends_whole Store.global).1 _ _ _ _ _ _ hsites hreturns
  refine ⟨((hwhole.2 (.bind "x") [.expr (prints 1)] [] _ _ hprints).2 _ _).2 ⟨rfl, rfl⟩, ?_⟩
  have hcall := (signal_ends_whole Store.global).2 (.function ["a"] [.ret (some (.ident "a")), .expr (prints 3)])
    [.int 5] ⟨0⟩ _ [.int 5] printed _ ⟨1, .cons rfl rfl (.cons rfl rfl (.nil _))⟩ rfl rfl
  exact ⟨_, (hcall _ _).2 (.inl ⟨_, rfl, .inr ⟨1, rfl⟩⟩), rfl⟩

end Eval

end MonkeyLang
