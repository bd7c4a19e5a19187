/-
What an evaluation cannot reach, it can neither see nor change. Two evaluations run in step on stores
that are twins for a set of cells (`InStep`): they end alike, print the same, leave twins behind and
change nothing outside the set. Twins are a simulation, hence every expression keeps the two in step
(`inStep_expr`). For the set of all cells that can be reached from a scope, together with those that are
yet to be made, this is noninterference (`runsAlike_of_agrees`).
-/
import MonkeyLang.Proofs.Eval.Simulation
import MonkeyLang.Proofs.Store.Twin

namespace MonkeyLang

open Store (Twin)

namespace Eval

variable {P : Cell → Prop} {s t : Store} {α : Type} {Q : α → Prop}

/-! ## Two evaluations in step -/

/-- The machines `m'` and `n'` that follow `m` and `n` have printed the same. -/
structure Abreast (P : Cell → Prop) (m n m' n' : Machine) : Prop where
  moves : Twin.Moves P m.store n.store m'.store n'.store
  output : ∃ printed, m'.output = m.output ++ printed ∧ n'.output = n.output ++ printed

/-- What is known of an outcome: `Q` of a result, and of a value on its way back that it leads nowhere
outside the set. -/
def Carries (P : Cell → Prop) (Q : α → Prop) : Except Signal α → Prop
  | .ok a => Q a
  | .error (.returned v) => v.Within P
  | .error (.failed _) => True

/-- Both evaluations are cut short, or both come to their end in the same way. -/
inductive Together (P : Cell → Prop) (Q : α → Prop) (m n : Machine) :
    Option (Except Signal α × Machine) → Option (Except Signal α × Machine) → Prop where
  | cutShort : Together P Q m n none none
  | ended {r : Except Signal α} {m' n' : Machine} (h : Abreast P m n m' n') (hr : Carries P Q r) :
    Together P Q m n (some (r, m')) (some (r, n'))

def InStep (P : Cell → Prop) (e e' : Eval α) (s t : Store) (Q : α → Prop) : Prop :=
  ∀ output output', Together P Q ⟨s, output⟩ ⟨t, output'⟩ (e.run ⟨s, output⟩) (e'.run ⟨t, output'⟩)

/-! ## Rules -/

theorem within_of_atomic {v : Value} (h : v.Atomic) : v.Within P := by
  intro c hc
  cases v with
  | array r => exact h.elim
  | hash r => exact h.elim
  | function r => exact h.elim
  | _ => cases hc

/-- The twins that follow `s` and `t` by changes in the set alone. -/
def Simulation.twins (P : Cell → Prop) (s t : Store) : Simulation where
  stores := Twin.Moves P s t
  value := Value.Within P
  scope r := P (.frame r)
  name _ := True
  atomic := within_of_atomic
  elements h hv := h.twin.elements (hv _ rfl)
  hash h hv := h.twin.hash (hv _ rfl)
  closure? h hv := by
    obtain ⟨hsame, hscope⟩ := h.twin.closure? (hv _ rfl)
    exact ⟨hsame, fun c hc => ⟨hscope c hc, fun _ _ => trivial⟩⟩
  lookup h hr _ _ := h.twin.lookup _ hr
  depthBound h := by rw [Store.depthBound, Store.depthBound, h.twin.arrays, h.twin.hashes]
  newFrame h hr := (h.twin.newFrame hr).imp_right (·.imp_right h.trans)
  newArray h hvs := (h.twin.newArray hvs).imp_right (·.imp_right h.trans)
  newHash h hx := (h.twin.newHash hx).imp_right (·.imp_right h.trans)
  newClosure h hr _ := (h.twin.newClosure hr).imp_right (·.imp_right h.trans)
  define h hr hv := h.trans (h.twin.define hr _ hv)
  append h hr hv := h.trans (h.twin.append (hr _ rfl) hv)

theorem inStep_of_simulation {e e' : Eval α} (h : (Simulation.twins P s t).InStep e e' s t Q) :
    InStep P e e' s t Q := by
  intro output output'
  have hrun := h output output'
  generalize e.run ⟨s, output⟩ = x at hrun
  generalize e'.run ⟨t, output'⟩ = y at hrun
  cases hrun with
  | cutShort => exact .cutShort
  | @ended r m n printed hs hm hn hr =>
    refine .ended ⟨hs, printed, hm, hn⟩ ?_
    match r, hr with
    | .ok a, hr => exact hr
    | .error (.returned v), hr => exact hr
    | .error (.failed e), _ => trivial

theorem InStep.simulation {s₀ t₀ : Store} {e e' : Eval α} (hmoves : Twin.Moves P s₀ t₀ s t)
    (h : InStep P e e' s t Q) : (Simulation.twins P s₀ t₀).InStep e e' s t Q := by
  intro output output'
  have hrun := h output output'
  generalize e.run ⟨s, output⟩ = x at hrun
  generalize e'.run ⟨t, output'⟩ = y at hrun
  cases hrun with
  | cutShort => exact .cutShort
  | @ended r m n habreast hr =>
    obtain ⟨hs, printed, hm, hn⟩ := habreast
    refine .ended (hmoves.trans hs) hm hn ?_
    match r, hr with
    | .ok a, hr => exact hr
    | .error (.returned v), hr => exact hr
    | .error (.failed e), _ => trivial

section Rules

variable {expr : Expr → FrameRef → Eval Value} {r : FrameRef}
  (hexpr : ∀ e r s t, Twin P s t → P (.frame r) → InStep P (expr e r) (expr e r) s t (Value.Within P))

include hexpr

theorem simulation_expr (s₀ t₀ : Store) : ∀ e r s t, (∀ x ∈ e.names, (Simulation.twins P s₀ t₀).name x) →
    (Simulation.twins P s₀ t₀).stores s t → P (.frame r) →
    (Simulation.twins P s₀ t₀).InStep (expr e r) (expr e r) s t (Value.Within P) :=
  fun e r s t _ h hr => (hexpr e r s t h.twin hr).simulation h

theorem inStep_statement (h : Twin P s t) (hr : P (.frame r)) (x : Stmt) :
    InStep P (statement expr r x) (statement expr r x) s t (Value.Within P) :=
  inStep_of_simulation (Simulation.inStep_statement (simulation_expr hexpr s t) (.refl h) hr fun _ _ => trivial)

theorem inStep_statements (h : Twin P s t) (hr : P (.frame r)) (xs : List Stmt) :
    InStep P (statements expr r xs) (statements expr r xs) s t (Value.Within P) :=
  inStep_of_simulation (Simulation.inStep_statements (simulation_expr hexpr s t) (.refl h) hr fun _ _ => trivial)

end Rules

theorem inStep_expr (P : Cell → Prop) (depth : Nat) : ∀ e r s t, Twin P s t → P (.frame r) →
    InStep P (Eval.expr depth e r) (Eval.expr depth e r) s t (Value.Within P) := by
  intro e r s t h hr
  refine inStep_of_simulation ?_
  exact (Simulation.twins P s t).inStep_expr depth e r s t (fun _ _ => trivial) (.refl h) hr

end Eval

/-! ## Noninterference -/

namespace Store

/-- All that can be reached from a scope, and all that is yet to be made. -/
def Visible (s : Store) (scope : FrameRef) (c : Cell) : Prop := s.Reaches (.frame scope) c ∨ ¬ s.Has c

theorem Agrees.twin {s t : Store} {scope : FrameRef} (h : s.Agrees t (· = .frame scope)) :
    Twin (s.Visible scope) s t where
  sizes := sizes_eq_of_has_iff h.has_iff
  same c hc := by
    rcases hc with hc | hc
    · exact h.same _ c rfl hc
    · exact sameAt_of_not_has hc fun ht => hc ((h.has_iff c).2 ht)
  closed c d hc hcd := by
    rcases hc with hc | hc
    · exact .inl (hc.tail hcd)
    · exact absurd hcd.has hc
  fresh _ hc := .inr hc

/-- What a run leaves of a cell that was there and out of its reach. -/
def KeepsUnreached (s t : Store) (scope : FrameRef) : Prop :=
  ∀ c, s.Has c → ¬ s.Reaches (.frame scope) c → t.SameAt s c

end Store

/-- The value that an outcome carries. -/
def Eval.outcomeValue? : Except Signal Value → Option Value
  | .ok v => some v
  | .error (.returned v) => some v
  | .error (.failed _) => none

/-- Two runs in the same scope, one from the store `s` and one from the store `t`, are both cut short; or
they end with the same outcome after printing the same, they agree on all that can be reached from the
scope or from the value of the outcome, and neither has changed anything out of its reach. -/
inductive RunsAlike {ρ : Type} (m n : Machine) (scope : FrameRef) (value? : ρ → Option Value) :
    Option (ρ × Machine) → Option (ρ × Machine) → Prop where
  | cutShort : RunsAlike m n scope value? none none
  | ended (r : ρ) (m' n' : Machine) (printed : String) (hm : m'.output = m.output ++ printed)
    (hn : n'.output = n.output ++ printed)
    (agrees : m'.store.Agrees n'.store fun c => c = .frame scope ∨ ∃ v ∈ value? r, v.cell? = some c)
    (left : m.store.KeepsUnreached m'.store scope) (right : n.store.KeepsUnreached n'.store scope) :
    RunsAlike m n scope value? (some (r, m')) (some (r, n'))

theorem Eval.Abreast.runsAlike {ρ : Type} {value? : ρ → Option Value} {m n m' n' : Machine} {scope : FrameRef}
    (h : m.store.Agrees n.store (· = .frame scope)) (hm : Eval.Abreast (m.store.Visible scope) m n m' n') {r : ρ}
    (hr : ∀ v ∈ value? r, v.Within (m.store.Visible scope)) :
    RunsAlike m n scope value? (some (r, m')) (some (r, n')) := by
  obtain ⟨⟨htwin, hleft, hright⟩, printed, hp, hp'⟩ := hm
  refine .ended r m' n' printed hp hp' ⟨htwin.has_iff, fun c d hc hcd => htwin.same d ?_⟩
    (fun c hc hreach => hleft c ?_) fun c hc hreach => hright c ?_
  · refine hcd.of_closed htwin.closed ?_
    rcases hc with rfl | ⟨v, hv, hvc⟩
    · exact .inl .refl
    · exact hr v hv c hvc
  · rintro (hin | hnew)
    · exact hreach hin
    · exact hnew hc
  · rintro (hin | hnew)
    · exact hreach (hin.of_agrees h rfl)
    · exact hnew ((h.has_iff c).2 hc)

theorem Eval.InStep.runsAlike {e : Eval Value} {s t : Store} {scope : FrameRef}
    (h : s.Agrees t (· = .frame scope)) (he : Eval.InStep (s.Visible scope) e e s t (Value.Within (s.Visible scope)))
    (output output' : String) :
    RunsAlike ⟨s, output⟩ ⟨t, output'⟩ scope Eval.outcomeValue? (e.run ⟨s, output⟩) (e.run ⟨t, output'⟩) := by
  have hrun := he output output'
  generalize e.run ⟨s, output⟩ = x at hrun
  generalize e.run ⟨t, output'⟩ = y at hrun
  cases hrun with
  | cutShort => exact .cutShort
  | @ended r m n hm hr =>
    refine hm.runsAlike h fun v hv => ?_
    match r, hr, hv with
    | .ok _, hr, rfl => exact hr
    | .error (.returned _), hr, rfl => exact hr

/-- Scoping is lexical: on stores with the same cells that agree on all that can be reached from a
scope, an expression, a statement or a program in that scope runs alike, at every depth. So either it
comes to an end on both or on neither; and what it does not reach, it neither sees nor changes. -/
theorem runsAlike_of_agrees {s t : Store} {scope : FrameRef} (h : s.Agrees t (· = .frame scope))
    (output output' : String) (depth : Nat) :
    (∀ e, RunsAlike ⟨s, output⟩ ⟨t, output'⟩ scope Eval.outcomeValue?
      ((Eval.expr depth e scope).run ⟨s, output⟩) ((Eval.expr depth e scope).run ⟨t, output'⟩)) ∧
    (∀ st, RunsAlike ⟨s, output⟩ ⟨t, output'⟩ scope Eval.outcomeValue?
      ((Eval.statement (Eval.expr depth) scope st).run ⟨s, output⟩)
      ((Eval.statement (Eval.expr depth) scope st).run ⟨t, output'⟩)) ∧
    ∀ p, RunsAlike ⟨s, output⟩ ⟨t, output'⟩ scope some
      ((Machine.mk s output).runIn depth scope p) ((Machine.mk t output').runIn depth scope p) := by
  have hexpr := Eval.inStep_expr (s.Visible scope) depth
  have hscope : s.Visible scope (.frame scope) := .inl .refl
  refine ⟨fun e => ?_, fun st => ?_, fun p => ?_⟩
  · exact (hexpr e scope s t h.twin hscope).runsAlike h output output'
  · exact (Eval.inStep_statement hexpr h.twin hscope st).runsAlike h output output'
  · have hrun := Eval.inStep_statements hexpr h.twin hscope p.statements output output'
    unfold Machine.runIn
    generalize (Eval.statements (Eval.expr depth) scope p.statements).run ⟨s, output⟩ = x at hrun
    generalize (Eval.statements (Eval.expr depth) scope p.statements).run ⟨t, output'⟩ = y at hrun
    cases hrun with
    | cutShort => exact .cutShort
    | @ended r m n hm hr =>
      match r, hr with
      | .ok v, hr => exact hm.runsAlike h fun w hw => by cases hw; exact hr
      | .error (.returned v), hr => exact hm.runsAlike h fun w hw => by cases hw; exact hr
      | .error (.failed e), _ =>
        exact hm.runsAlike h fun w hw => by cases hw; exact fun c hc => nomatch hc

/-- A function in the global scope that binds an `x` of its own, and another scope with an `x`. -/
def callerWith (x : Int64) : Store :=
  ⟨#[⟨[("f", .function ⟨0⟩)], none⟩, ⟨[("x", .int x)], some ⟨0⟩⟩], #[], #[],
    #[⟨["y"], [.bind "x" (.ident "y"), .expr (.ident "x")], ⟨0⟩⟩]⟩

theorem agrees_callerWith (x y : Int64) : (callerWith x).Agrees (callerWith y) (· = .frame ⟨0⟩) where
  has_iff c := by cases c <;> exact Iff.rfl
  same r c hr hc := by
    have hin : c = .frame ⟨0⟩ ∨ c = .closure ⟨0⟩ := by
      refine hc.of_closed (P := fun c => c = .frame ⟨0⟩ ∨ c = .closure ⟨0⟩) (fun c d hc hcd => ?_) (.inl hr)
      rcases hc with rfl | rfl
      · cases hcd with
        | outer hf ho => cases hf; cases ho
        | binding hf hb hd =>
          cases hf
          obtain rfl := List.mem_singleton.1 hb
          exact .inr (Option.some.inj hd).symm
      · cases hcd with
        | scope hx => cases hx; exact .inl rfl
    rcases hin with rfl | rfl <;> rfl

/-- The call `f(5)` from the global scope runs alike whatever `x` the other scope has. -/
theorem runsAlike_of_agrees_callerWith : ¬ (callerWith 1).SameAt (callerWith 2) (.frame ⟨1⟩) ∧
    (callerWith 1).Agrees (callerWith 2) (· = .frame ⟨0⟩) ∧
    RunsAlike ⟨callerWith 1, ""⟩ ⟨callerWith 2, ""⟩ ⟨0⟩ Eval.outcomeValue?
      ((Eval.expr 3 (.call (.ident "f") [.int 5]) ⟨0⟩).run ⟨callerWith 1, ""⟩)
      ((Eval.expr 3 (.call (.ident "f") [.int 5]) ⟨0⟩).run ⟨callerWith 2, ""⟩) :=
  ⟨by simp [Store.SameAt, callerWith], agrees_callerWith 1 2,
    (runsAlike_of_agrees (agrees_callerWith 1 2) "" "" 3).1 (.call (.ident "f") [.int 5])⟩

end MonkeyLang
