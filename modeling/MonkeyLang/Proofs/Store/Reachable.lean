/-
The stores that can come up: a host makes scopes, arrays, hashes and closures of what it holds, puts
other elements into its arrays and other bindings into its scopes, and runs programs. All of them are
well-formed.
-/
import MonkeyLang.Proofs.Eval.Invariant

namespace MonkeyLang

/-! ## Evaluation -/

/-- Evaluation keeps stores well-formed and only lets them grow. -/
def Eval.Invariant.wf : Eval.Invariant where
  store := Store.WF
  value := Store.HasValue
  scope _ _ := True
  grows := Store.Extends
  grows_refl := Store.Extends.refl
  grows_trans := Store.Extends.trans
  value_mono h hv := h.hasValue hv
  scope_mono _ _ := trivial
  atomic {_ v} _ hv := by cases v <;> trivial
  element hs hv := hs.hasValue_of_mem_elements hv
  entry hs hp := ((hs.holds_hash _).entries _ (Hash.mem_of_findEntry hp)).2
  lookup hs hv := hs.hasValue_of_lookupWithin hv
  newArray {s vs} hs hvs := ⟨hs.newArray hvs, Store.extends_newArray s vs, by simp [Store.HasValue, Store.newArray]⟩
  newHash {s h} hs hh _ := ⟨hs.newHash hh, Store.extends_newHash s h, by simp [Store.HasValue, Store.newHash]⟩
  newClosure {s c} hs _ := ⟨hs.newClosure c, Store.extends_newClosure s c, by simp [Store.HasValue, Store.newClosure]⟩
  newFrame {s _ c} hs _ := ⟨hs.pushFrame (by simp), Store.extends_pushFrame s ⟨[], some c.scope⟩, trivial⟩
  define {s r name v} hs _ hv := ⟨hs.define r name hv, Store.extends_define s r name v⟩
  append {s r v} hs _ hv := ⟨hs.append r hv, Store.extends_append s r v⟩

namespace Store

/-! ## Host steps -/

/-- What a host can do to a store. It holds only values of the store. -/
inductive Step (s : Store) : Store → Prop where
  | newFrame (f : Frame) (hf : ∀ b ∈ f.bindings, s.HasValue b.2) : Step s (s.pushFrame f)
  | setFrame (r : FrameRef) (f : Frame) (hf : ∀ b ∈ f.bindings, s.HasValue b.2) : Step s (s.setFrame r f)
  | newArray (vs : Array Value) (hvs : ∀ v ∈ vs, s.HasValue v) : Step s (s.newArray vs).2
  | setElements (r : ArrayRef) (vs : Array Value) (hvs : ∀ v ∈ vs, s.HasValue v) : Step s (s.setElements r vs)
  | newHash (h : Hash) (hh : h.Holds s.HasValue) : Step s (s.newHash h).2
  | newClosure (c : Closure) : Step s (s.newClosure c).2
  /-- A program that comes to its end, with a value or an error. -/
  | run (output : String) (depth : Nat) (scope : FrameRef) (p : Program) (v : Value) (m : Machine)
    (h : (Machine.mk s output).runIn depth scope p = some (v, m)) : Step s m.store

/-- A store that host steps lead to from the start. -/
inductive Reachable : Store → Prop where
  | initial : Reachable .initial
  | step {s t : Store} (hs : Reachable s) (ht : Step s t) : Reachable t

variable {s t : Store}

theorem WF.step (hs : s.WF) (ht : s.Step t) : t.WF := by
  cases ht with
  | newFrame f hf => exact hs.pushFrame hf
  | setFrame r f hf => exact hs.setFrame r hf
  | newArray vs hvs => exact hs.newArray hvs
  | setElements r vs hvs => exact hs.setElements r hvs
  | newHash h hh => exact hs.newHash hh
  | newClosure c => exact hs.newClosure c
  | run output depth scope p v m h =>
    have hrun := Eval.Invariant.runIn_keeps .wf (s := s) hs trivial h
    exact hrun.1.store

theorem Reachable.wf (h : s.Reachable) : s.WF := by
  induction h with
  | initial => exact wf_initial
  | step _ ht ih => exact ih.step ht

end Store

end MonkeyLang
