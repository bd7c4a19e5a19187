/-
The machines that a session can lead to: programs and source texts run one after another in the global
scope, from the initial machine. What an invariant of evaluation says of stores holds of all of them
(`Reached.invariant`). In particular a runtime error ends a program and is its value, but is never kept:
no store of a session holds an error, and no evaluation inside a program yields one
(`errors_are_never_kept`).
-/
import MonkeyLang.Proofs.Eval.Invariant
import MonkeyLang.Proofs.Store.Contents
import MonkeyLang.Session

namespace MonkeyLang

namespace Machine

/-- A machine that a session leads to. A program may also be one that was recovered from a text with
errors. -/
inductive Reached : Machine → Prop where
  | initial : Reached .initial
  | source {m m' : Machine} {depth : Nat} {text : String} {r : Except (List ParseError) Value}
    (hm : Reached m) (h : m.runSource depth text = some (r, m')) : Reached m'
  | program {m m' : Machine} {depth : Nat} {p : Program} {v : Value} (hm : Reached m)
    (h : m.runProgram depth p = some (v, m')) : Reached m'

variable {m m' : Machine}

/-- A text without an error runs as its program; any other leaves the machine alone. -/
theorem runSource_cases {depth : Nat} {text : String} {r : Except (List ParseError) Value}
    (h : m.runSource depth text = some (r, m')) :
    (∃ v, r = .ok v ∧ m.runProgram depth (parse text).program = some (v, m')) ∨
      r = .error (parse text).errors ∧ m' = m := by
  unfold runSource at h
  simp only at h
  split at h
  · obtain ⟨⟨v, m₁⟩, hrun, heq⟩ := Option.map_eq_some_iff.1 h
    cases heq
    exact .inl ⟨v, rfl, hrun⟩
  · cases h
    exact .inr ⟨rfl, rfl⟩

/-- An invariant that holds at the start, and for which the global scope is good, holds throughout a
session. -/
theorem Reached.invariant (I : Eval.Invariant) (hinitial : I.store .initial)
    (hglobal : ∀ s, I.store s → I.scope s Store.global) (h : m.Reached) : I.store m.store := by
  have hprogram : ∀ {m m' : Machine} {depth : Nat} {p : Program} {v : Value}, I.store m.store →
      m.runProgram depth p = some (v, m') → I.store m'.store := fun hm hrun =>
    (I.runIn_keeps hm (hglobal _ hm) hrun).1.store
  induction h with
  | initial => exact hinitial
  | source _ hrun ih =>
    obtain ⟨v, -, hrun⟩ | ⟨-, rfl⟩ := runSource_cases hrun
    · exact hprogram ih hrun
    · exact ih
  | program _ hrun ih => exact hprogram ih hrun

end Machine

/-! ## Errors -/

/-- A runtime error as a value. -/
def Value.IsError (v : Value) : Prop := ∃ e, v = .error e

/-- No value in the store is an error. -/
abbrev Store.ErrorFree (s : Store) : Prop := s.HoldsOnly fun v => ¬ v.IsError

namespace Eval

/-- An evaluation has an error for its value, or has it on its way back as a value. -/
def YieldsError (r : Except Signal Value) : Prop := ∃ e, r = .ok (.error e) ∨ r = .error (.returned (.error e))

theorem not_isError_of_atomic {v : Value} (h : v.Atomic) : ¬ v.IsError := by
  rintro ⟨e, rfl⟩
  exact h

/-- Evaluation makes no value of an error, and keeps errors out of the store. -/
def Invariant.errorFree : Invariant where
  store := Store.ErrorFree
  value _ v := ¬ v.IsError
  scope _ _ := True
  grows _ _ := True
  grows_refl _ := trivial
  grows_trans _ _ := trivial
  value_mono _ hv := hv
  scope_mono _ _ := trivial
  atomic _ hv := not_isError_of_atomic hv
  element hs hv := hs.of_mem_elements hv
  entry hs hp := (hs.of_mem_entries (Hash.mem_of_findEntry hp)).2
  lookup hs hv := hs.of_lookup hv
  newArray hs hvs := ⟨hs.newArray hvs, trivial, by rintro ⟨e, ⟨⟩⟩⟩
  newHash hs hh _ := ⟨hs.newHash hh, trivial, by rintro ⟨e, ⟨⟩⟩⟩
  newClosure {_ c} hs _ := ⟨hs.newClosure c, trivial, by rintro ⟨e, ⟨⟩⟩⟩
  newFrame {_ _ c} hs _ := ⟨hs.newFrame c.scope, trivial, trivial⟩
  define {_ r name _} hs _ hv := ⟨hs.define r name hv, trivial⟩
  append {_ r _} hs _ hv := ⟨hs.append r hv, trivial⟩

theorem Invariant.Outcome.not_yieldsError {t : Store} {r : Except Signal Value}
    (h : errorFree.Outcome errorFree.value t r) : ¬ YieldsError r := by
  rintro ⟨e, rfl | rfl⟩
  · exact h ⟨e, rfl⟩
  · exact h ⟨e, rfl⟩

theorem Invariant.Keeps.errorFree {e : Eval Value} {m m' : Machine} {r : Except Signal Value}
    (h : Invariant.errorFree.Keeps e m.store Invariant.errorFree.value) (hr : e.run m = some (r, m')) :
    ¬ YieldsError r ∧ m'.store.ErrorFree :=
  ⟨(h m.output r m' hr).2.not_yieldsError, (h m.output r m' hr).1.store⟩

end Eval

namespace Machine

open Eval (YieldsError)

/-- A program has an error for its value exactly when its statements end in that error, if they yield none
themselves. -/
theorem runIn_eq_error_iff {m m' : Machine} {depth : Nat} {scope : FrameRef} {p : Program} {v : Value}
    (hno : ∀ r m', (Eval.statements (Eval.expr depth) scope p.statements).run m = some (r, m') → ¬ YieldsError r)
    (h : m.runIn depth scope p = some (v, m')) (e : RuntimeError) :
    v = .error e ↔ (Eval.statements (Eval.expr depth) scope p.statements).run m = some (.error (.failed e), m') := by
  unfold runIn at h
  split at h
  · next w m₁ hw =>
    cases h
    rw [hw]
    exact ⟨fun he => absurd ⟨e, .inl (by rw [he])⟩ (hno _ _ hw), fun he => by cases he⟩
  · next w m₁ hw =>
    cases h
    rw [hw]
    exact ⟨fun he => absurd ⟨e, .inr (by rw [he])⟩ (hno _ _ hw), fun he => by cases he⟩
  · next f m₁ hf =>
    cases h
    rw [hf]
    constructor
    · rintro ⟨⟩; rfl
    · rintro ⟨⟩; rfl
  · cases h

/-- In no state of a session does the store hold an error. From any such store, no expression, statement,
block or call yields one, and all leave such a store behind; and a program has an error for its value
exactly when its statements end in that error. -/
theorem errors_are_never_kept :
    (∀ m : Machine, m.Reached → m.store.ErrorFree) ∧
    ∀ m : Machine, m.store.ErrorFree → ∀ (depth : Nat) (scope : FrameRef),
      (∀ e r m', (Eval.expr depth e scope).run m = some (r, m') → ¬ YieldsError r ∧ m'.store.ErrorFree) ∧
      (∀ st r m', (Eval.statement (Eval.expr depth) scope st).run m = some (r, m') →
        ¬ YieldsError r ∧ m'.store.ErrorFree) ∧
      (∀ block r m', (Eval.statements (Eval.expr depth) scope block).run m = some (r, m') →
        ¬ YieldsError r ∧ m'.store.ErrorFree) ∧
      (∀ f args r m', (∀ v ∈ args, ¬ v.IsError) → (Eval.apply (Eval.expr depth) f args).run m = some (r, m') →
        ¬ YieldsError r ∧ m'.store.ErrorFree) ∧
      ∀ p v m', m.runIn depth scope p = some (v, m') → m'.store.ErrorFree ∧ ∀ e, v = .error e ↔
        (Eval.statements (Eval.expr depth) scope p.statements).run m = some (.error (.failed e), m') := by
  refine ⟨fun m hm => hm.invariant .errorFree (Store.holdsOnly_initial _) fun _ _ => trivial,
    fun m hm depth scope => ?_⟩
  have hexpr := Eval.Invariant.errorFree.keeps_expr depth
  have hblock : ∀ block r m', (Eval.statements (Eval.expr depth) scope block).run m = some (r, m') →
      ¬ YieldsError r ∧ m'.store.ErrorFree := fun block r m' h =>
    (Eval.Invariant.keeps_statements hexpr hm trivial block).errorFree h
  refine ⟨fun e r m' h => ?_, fun st r m' h => ?_, hblock, fun f args r m' hargs h => ?_, fun p v m' h => ⟨?_, ?_⟩⟩
  · exact (hexpr e scope m.store hm trivial).errorFree h
  · exact (Eval.Invariant.keeps_statement hexpr hm trivial st).errorFree h
  · exact (Eval.Invariant.keeps_apply hexpr hm f hargs).errorFree h
  · exact (Eval.Invariant.errorFree.runIn_keeps hm trivial h).1.store
  · exact runIn_eq_error_iff (fun r m' hr => (hblock _ r m' hr).1) h

/-- `let xs = []; push(xs, 1)[0] / 0;` -/
def failing : Program :=
  ⟨[.bind "xs" (.array []), .expr (.binary .div (.index (.call (.ident "push") [.ident "xs", .int 1]) (.int 0)) (.int 0))]⟩

/-- The program fails after it has changed the store, and the error is its value only. -/
theorem errors_are_never_kept_failing : ∃ m,
    Machine.initial.runProgram 4 failing = some (.error (.divisionByZero 1), m) ∧ m.Reached ∧
    m.store.elements ⟨0⟩ = #[.int 1] ∧ m.store.ErrorFree ∧
    (Eval.statements (Eval.expr 4) Store.global failing.statements).run .initial =
      some (.error (.failed (.divisionByZero 1)), m) := by
  obtain ⟨m, hrun, helements⟩ : ∃ m, Machine.initial.runProgram 4 failing = some (.error (.divisionByZero 1), m) ∧
      m.store.elements ⟨0⟩ = #[.int 1] := ⟨_, rfl, rfl⟩
  have hfree := errors_are_never_kept.1 .initial .initial
  have hm : m.Reached := .program .initial hrun
  have hvalue := ((errors_are_never_kept.2 .initial hfree 4 Store.global).2.2.2.2 failing _ m hrun).2
  exact ⟨m, hrun, hm, helements, errors_are_never_kept.1 m hm, (hvalue (.divisionByZero 1)).1 rfl⟩

end Machine

end MonkeyLang
