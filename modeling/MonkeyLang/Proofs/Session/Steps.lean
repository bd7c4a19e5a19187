/-
A program cut in two at the end of a statement runs as its two parts do, one after the other on the same
machine (`runsTo_append_newline`): if the statements of the first part end in a value, the second part
goes on from the machine that they leave, and if they end in a return or an error, nothing of the second
part is evaluated.
-/
import MonkeyLang.Proofs.Eval.Depth
import MonkeyLang.Proofs.Parse.Joined
import MonkeyLang.Session

namespace MonkeyLang

/-! ## Statements one after another -/

namespace Eval

variable {expr : Expr → FrameRef → Eval Value} {scope : FrameRef}

theorem run_statementsAfter_append (v : Value) (ss tt : List Stmt) (m : Machine) :
    (statementsAfter expr scope v (ss ++ tt)).run m =
      (statementsAfter expr scope v ss >>= fun w => statementsAfter expr scope w tt).run m := by
  induction ss generalizing v m with
  | nil => rfl
  | cons s ss ih =>
    change (statement expr scope s >>= fun w => statementsAfter expr scope w (ss ++ tt)).run m =
      ((statement expr scope s >>= fun w => statementsAfter expr scope w ss) >>=
        fun w => statementsAfter expr scope w tt).run m
    simp only [run_bind] at ih ⊢
    generalize (statement expr scope s).run m = r
    obtain _ | ⟨_ | w, m'⟩ := r
    · rfl
    · rfl
    · exact ih w m'

/-- A value before statements is not seen by them, unless there are none. -/
theorem run_statements_append (ss : List Stmt) {tt : List Stmt} (htt : tt ≠ []) (m : Machine) :
    (statements expr scope (ss ++ tt)).run m =
      (statements expr scope ss >>= fun _ => statements expr scope tt).run m := by
  obtain ⟨t, tt, rfl⟩ := List.exists_cons_of_ne_nil htt
  exact run_statementsAfter_append .null ss (t :: tt) m

end Eval

/-- The value of a program that a signal ends. -/
def Signal.value : Signal → Value
  | .returned v => v
  | .failed e => .error e

namespace Machine

variable {m m' m₁ m₂ : Machine} {ss tt : List Stmt} {o o' : Except Signal Value}

/-- The statements end in `o` and leave `m'` when they run in the global scope of `m`. -/
def Ends (m : Machine) (ss : List Stmt) (o : Except Signal Value) (m' : Machine) : Prop :=
  ∃ depth, (Eval.statements (Eval.expr depth) Store.global ss).run m = some (o, m')

/-- The run of a text on `m` comes to its end with the answer `r` and leaves `m'`. -/
def RunsTo (m : Machine) (source : String) (r : Except (List ParseError) Value) (m' : Machine) : Prop :=
  ∃ depth, m.runSource depth source = some (r, m')

theorem run_statements_mono {n k : Nat} (hk : n ≤ k) {x : Except Signal Value × Machine}
    (h : (Eval.statements (Eval.expr n) Store.global ss).run m = some x) :
    (Eval.statements (Eval.expr k) Store.global ss).run m = some x :=
  Eval.refines_statements_expr hk Store.global ss m x h

theorem Ends.unique (h : m.Ends ss o m₁) (h' : m.Ends ss o' m₂) : o' = o ∧ m₂ = m₁ := by
  obtain ⟨n, hn⟩ := h
  obtain ⟨k, hk⟩ := h'
  exact Prod.mk.inj (Eval.eq_of_refines (fun _ _ hk => Eval.refines_statements_expr hk Store.global ss) hn hk)

theorem ends_append (htt : tt ≠ []) : m.Ends (ss ++ tt) o m' ↔
    (∃ v m₁, m.Ends ss (.ok v) m₁ ∧ m₁.Ends tt o m') ∨ ∃ σ, o = .error σ ∧ m.Ends ss (.error σ) m' := by
  constructor
  · rintro ⟨n, h⟩
    rw [Eval.run_statements_append ss htt, Eval.run_bind] at h
    split at h
    · next v m₁ hv => exact .inl ⟨v, m₁, ⟨n, hv⟩, n, h⟩
    · next σ m₁ hσ =>
      cases h
      exact .inr ⟨σ, rfl, n, hσ⟩
    · cases h
  · rintro (⟨v, m₁, ⟨n, hv⟩, k, h⟩ | ⟨σ, rfl, n, h⟩)
    · refine ⟨max n k, ?_⟩
      rw [Eval.run_statements_append ss htt, Eval.run_bind_ok (run_statements_mono (Nat.le_max_left n k) hv)]
      exact run_statements_mono (Nat.le_max_right n k) h
    · exact ⟨n, by rw [Eval.run_statements_append ss htt, Eval.run_bind_error h]⟩

/-- Statements behind others that end in a value go on from the machine that those leave. -/
theorem ends_append_of_ok {v : Value} (hv : m.Ends ss (.ok v) m₁) (htt : tt ≠ []) :
    m.Ends (ss ++ tt) o m' ↔ m₁.Ends tt o m' := by
  rw [ends_append htt]
  constructor
  · rintro (⟨w, m₂, hw, h⟩ | ⟨σ, -, hσ⟩)
    · obtain ⟨-, rfl⟩ := hv.unique hw
      exact h
    · cases (hv.unique hσ).1
  · exact fun h => .inl ⟨v, m₁, hv, h⟩

/-! ## Texts -/

/-- The value of a program whose statements end in `o`. -/
def finalValue (o : Except Signal Value) : Value :=
  match o with
  | .ok v => v
  | .error σ => σ.value

theorem runIn_eq (m : Machine) (depth : Nat) (scope : FrameRef) (p : Program) :
    m.runIn depth scope p = ((Eval.statements (Eval.expr depth) scope p.statements).run m).map
      fun x => (finalValue x.1, x.2) := by
  unfold runIn
  generalize (Eval.statements (Eval.expr depth) scope p.statements).run m = r
  obtain _ | ⟨⟨_ | _⟩ | v, m'⟩ := r <;> rfl

theorem runProgram_eq (m : Machine) (depth : Nat) (p : Program) :
    m.runProgram depth p = ((Eval.statements (Eval.expr depth) Store.global p.statements).run m).map
      fun x => (finalValue x.1, x.2) :=
  runIn_eq m depth Store.global p

theorem runsTo_iff {source : String} {r : Except (List ParseError) Value} (h : (parse source).errors = []) :
    m.RunsTo source r m' ↔ ∃ o, m.Ends (parse source).program.statements o m' ∧ r = .ok (finalValue o) := by
  simp only [RunsTo, runSource, h, List.isEmpty_nil, if_true, runProgram_eq, Option.map_map,
    Option.map_eq_some_iff]
  constructor
  · rintro ⟨n, ⟨o, m₁⟩, hx, heq⟩
    cases heq
    exact ⟨o, ⟨n, hx⟩, rfl⟩
  · rintro ⟨o, ⟨n, hx⟩, rfl⟩
    exact ⟨n, (o, m'), hx, rfl⟩

theorem runsTo_iff_of_ends {source : String} {r : Except (List ParseError) Value}
    (h : (parse source).errors = []) (ho : m.Ends (parse source).program.statements o m₁) :
    m.RunsTo source r m' ↔ r = .ok (finalValue o) ∧ m' = m₁ := by
  rw [runsTo_iff h]
  constructor
  · rintro ⟨o', ho', rfl⟩
    obtain ⟨rfl, rfl⟩ := ho.unique ho'
    exact ⟨rfl, rfl⟩
  · rintro ⟨rfl, rfl⟩
    exact ⟨o, ho, rfl⟩

/-- A text cut in two after a semicolon, its brackets paired on either side of the cut: the whole reads as
the statements of both parts and runs as the parts do, one after the other. -/
theorem runsTo_append_newline {a b : String} (ha : (parse a).errors = []) (hb : (parse b).errors = [])
    (hlast : (Token.tokenize a).dropLast.getLast?.map Token.kind = some .semicolon)
    (hbal : Token.Balanced (Token.tokenize a).dropLast) (hne : (parse b).program.statements ≠ []) :
    (parse (a ++ "\n" ++ b)).errors = [] ∧
    (parse (a ++ "\n" ++ b)).program.statements =
      (parse a).program.statements ++ (parse b).program.statements ∧
    ∀ m : Machine,
      (∀ v m₁, m.Ends (parse a).program.statements (.ok v) m₁ → ∀ r m₂,
        (m.RunsTo a r m₂ ↔ r = .ok v ∧ m₂ = m₁) ∧
        (m.RunsTo (a ++ "\n" ++ b) r m₂ ↔ m₁.RunsTo b r m₂)) ∧
      (∀ σ m₁, m.Ends (parse a).program.statements (.error σ) m₁ → ∀ r m₂,
        (m.RunsTo a r m₂ ↔ r = .ok σ.value ∧ m₂ = m₁) ∧
        (m.RunsTo (a ++ "\n" ++ b) r m₂ ↔ r = .ok σ.value ∧ m₂ = m₁)) ∧
      (∀ r m₂, m.RunsTo (a ++ "\n" ++ b) r m₂ → ∃ o m₁, m.Ends (parse a).program.statements o m₁) := by
  have hp := parse_append_newline ha hb hlast hbal
  have he : (parse (a ++ "\n" ++ b)).errors = [] := by rw [hp]
  have hss : (parse (a ++ "\n" ++ b)).program.statements =
      (parse a).program.statements ++ (parse b).program.statements := by rw [hp]
  refine ⟨he, hss, fun m => ⟨fun v m₁ hv r m₂ => ⟨runsTo_iff_of_ends ha hv, ?_⟩,
    fun σ m₁ hσ r m₂ => ⟨runsTo_iff_of_ends ha hσ, ?_⟩, fun r m₂ h => ?_⟩⟩
  · rw [runsTo_iff he, runsTo_iff hb, hss]
    simp only [ends_append_of_ok hv hne]
  · have hend : m.Ends (parse (a ++ "\n" ++ b)).program.statements (.error σ) m₁ := by
      rw [hss]
      exact (ends_append hne).2 (.inr ⟨σ, rfl, hσ⟩)
    exact runsTo_iff_of_ends he hend
  · obtain ⟨o, ho, -⟩ := (runsTo_iff he).1 h
    rw [hss, ends_append hne] at ho
    obtain ⟨v, m₁, hv, -⟩ | ⟨σ, -, hσ⟩ := ho
    · exact ⟨_, _, hv⟩
    · exact ⟨_, _, hσ⟩

/-- A function that prints, and a call of it on the next line. -/
theorem runsTo_append_newline_call :
    let a := "let f = fn(x) \x7b puts(x); x + 1; \x7d;"
    let b := "f(2)"
    (parse a).errors = [] ∧ (parse b).errors = [] ∧ Token.Balanced (Token.tokenize a).dropLast ∧
    (Token.tokenize a).dropLast.getLast?.map Token.kind = some .semicolon ∧
    (parse b).program.statements ≠ [] ∧
    ∃ m₁, Machine.initial.Ends (parse a).program.statements (.ok (.function ⟨0⟩)) m₁ ∧ ∀ r m₂,
      Machine.initial.RunsTo (a ++ "\n" ++ b) r m₂ ↔ m₁.RunsTo b r m₂ := by
  intro a b
  have ha : (parse a).errors = [] := by decide +kernel
  have hb : (parse b).errors = [] := by decide +kernel
  have hbal : Token.Balanced (Token.tokenize a).dropLast := by decide +kernel
  have hlast : (Token.tokenize a).dropLast.getLast?.map Token.kind = some .semicolon := by decide +kernel
  have hne : (parse b).program.statements ≠ [] := by decide +kernel
  have hss : (parse a).program.statements = [.bind "f" (.function ["x"]
      [.expr (.call (.ident "puts") [.ident "x"]), .expr (.binary .add (.ident "x") (.int 1))])] := by
    decide +kernel
  obtain ⟨m₁, hv⟩ : ∃ m₁, Machine.initial.Ends (parse a).program.statements (.ok (.function ⟨0⟩)) m₁ := by
    rw [hss]
    exact ⟨_, 1, rfl⟩
  exact ⟨ha, hb, hbal, hlast, hne, m₁, hv, fun r m₂ =>
    (((runsTo_append_newline ha hb hlast hbal hne).2.2 .initial).1 _ m₁ hv r m₂).2⟩

end Machine

end MonkeyLang
