/-
What was printed is never read. A run adds to the output of its machine, and does the same whatever that
output was (`runSource_eq_map`).
-/
import MonkeyLang.Proofs.Eval.Simulation
import MonkeyLang.Proofs.Session.Steps

namespace MonkeyLang

/-- Two runs on the same store, which may have printed different things before. -/
def Eval.Simulation.same : Eval.Simulation where
  stores s t := t = s
  value _ := True
  scope _ := True
  name _ := True
  atomic _ := trivial
  elements h _ := ⟨h ▸ rfl, fun _ _ => trivial⟩
  hash h _ := ⟨h ▸ rfl, fun _ _ => ⟨trivial, trivial⟩⟩
  closure? h _ := ⟨h ▸ rfl, fun _ _ => ⟨trivial, fun _ _ => trivial⟩⟩
  lookup h _ _ _ := ⟨h ▸ rfl, fun _ _ => trivial⟩
  depthBound h := h ▸ rfl
  newFrame h _ := ⟨h ▸ rfl, trivial, h ▸ rfl⟩
  newArray h _ := ⟨h ▸ rfl, trivial, h ▸ rfl⟩
  newHash h _ := ⟨h ▸ rfl, trivial, h ▸ rfl⟩
  newClosure h _ _ := ⟨h ▸ rfl, trivial, h ▸ rfl⟩
  define h _ _ := h ▸ rfl
  append h _ _ := h ▸ rfl

namespace Machine

/-- The machine with something printed before all that it printed. -/
def printedAfter (output : String) (m : Machine) : Machine := ⟨m.store, output ++ m.output⟩

theorem run_statements_eq_map (s : Store) (output : String) (depth : Nat) (scope : FrameRef) (ss : List Stmt) :
    (Eval.statements (Eval.expr depth) scope ss).run ⟨s, output⟩ =
      ((Eval.statements (Eval.expr depth) scope ss).run ⟨s, ""⟩).map (Prod.map id (printedAfter output)) := by
  have hexpr := Eval.Simulation.same.inStep_expr depth
  have hnames : ∀ x ∈ Stmt.allNames ss, Eval.Simulation.same.name x := fun _ _ => trivial
  have hrun := Eval.Simulation.inStep_statements hexpr (s := s) (t := s) (r := scope) rfl trivial hnames output ""
  generalize (Eval.statements (Eval.expr depth) scope ss).run ⟨s, output⟩ = x at hrun ⊢
  generalize (Eval.statements (Eval.expr depth) scope ss).run ⟨s, ""⟩ = y at hrun ⊢
  cases hrun with
  | cutShort => rfl
  | @ended r m n printed hs hm hn _ =>
    obtain ⟨s', out⟩ := m
    obtain ⟨t', out'⟩ := n
    obtain rfl : t' = s' := hs
    obtain rfl : out = output ++ printed := hm
    obtain rfl : out' = printed := by simpa using hn
    rfl

/-- A text runs as it does on a machine that has printed nothing. -/
theorem runSource_eq_map (s : Store) (output : String) (depth : Nat) (source : String) :
    (Machine.mk s output).runSource depth source =
      ((Machine.mk s "").runSource depth source).map (Prod.map id (printedAfter output)) := by
  unfold runSource
  simp only
  split
  · rw [runProgram_eq, runProgram_eq, run_statements_eq_map]
    simp only [Option.map_map]
    rfl
  · simp [printedAfter]

end Machine

end MonkeyLang
