/-
An evaluation binds names in its own scope and in the scopes of the calls that it makes, and nowhere
else. All of these but its own scope are made on the way, so every other scope that was there before
stays as it was (`evaluation_keeps_frames`).
-/
import MonkeyLang.Proofs.Eval.Invariant

namespace MonkeyLang

namespace Store

/-- A scope of `s` is in `t` with the same bindings and the same scope around it. -/
def KeepsFrame (s t : Store) (r : FrameRef) : Prop := ∀ f, s.frame? r = some f → t.frame? r = some f

variable {s : Store} {r r' : FrameRef}

theorem index_lt_of_frame? {f : Frame} (h : s.frame? r = some f) : r.index < s.frames.size :=
  (Array.getElem?_eq_some_iff.1 h).1

theorem frame?_newFrame (h : r.index < s.frames.size) (outer : FrameRef) :
    (s.newFrame outer).2.frame? r = s.frame? r := by
  simp only [frame?, newFrame, Array.getElem?_push]
  rw [if_neg (by omega)]

end Store

namespace Eval.Invariant

/-- The first `n` scopes stay as they are, except those of `own`. Only these and newer ones are ever
bound in. -/
def bindsIn (own : FrameRef → Prop) (n : Nat) : Eval.Invariant where
  store s := n ≤ s.frames.size
  value _ _ := True
  scope _ r := own r ∨ n ≤ r.index
  grows s t := ∀ r, ¬ own r → r.index < n → t.frame? r = s.frame? r
  grows_refl _ _ _ _ := rfl
  grows_trans h h' r hr hn := (h' r hr hn).trans (h r hr hn)
  value_mono _ _ := trivial
  scope_mono _ hr := hr
  atomic _ _ := trivial
  element _ _ := trivial
  entry _ _ := trivial
  lookup _ _ := trivial
  newArray hs _ := ⟨hs, fun _ _ _ => rfl, trivial⟩
  newHash hs _ _ := ⟨hs, fun _ _ _ => rfl, trivial⟩
  newClosure hs _ := ⟨hs, fun _ _ _ => rfl, trivial⟩
  newFrame {s _ c} hs _ := by
    refine ⟨?_, fun r _ hr => Store.frame?_newFrame (by omega) c.scope, .inr hs⟩
    simp only [Store.newFrame, Array.size_push]
    omega
  define {s r name v} hs hr _ := by
    refine ⟨by simpa [Store.define] using hs, fun r' hown hn => ?_⟩
    refine Store.frame?_define_of_ne ?_ name v
    rintro rfl
    exact hr.elim hown (Nat.not_le.2 hn)
  append hs _ _ := ⟨hs, fun _ _ _ => rfl⟩

variable {own : FrameRef → Prop} {s : Store} {α : Type} {e : Eval α} {Q : Store → α → Prop}

theorem Keeps.keepsFrame (h : (bindsIn own s.frames.size).Keeps e s Q) {output : String}
    {x : Except Signal α} {m : Machine} (hx : e.run ⟨s, output⟩ = some (x, m)) {r : FrameRef} (hr : ¬ own r) :
    s.KeepsFrame m.store r := by
  intro f hf
  rw [(h output x m hx).1.grows r hr (Store.index_lt_of_frame? hf), hf]

end Eval.Invariant

open Eval.Invariant in
/-- However an evaluation ends, every scope that was there before, apart from the one it is made in,
has the bindings and the outer scope that it had; and a call changes no scope at all. -/
theorem evaluation_keeps_frames (s : Store) (output : String) (depth : Nat) (scope : FrameRef) :
    (∀ e x m, (Eval.expr depth e scope).run ⟨s, output⟩ = some (x, m) →
      ∀ r, r ≠ scope → s.KeepsFrame m.store r) ∧
    (∀ st x m, (Eval.statement (Eval.expr depth) scope st).run ⟨s, output⟩ = some (x, m) →
      ∀ r, r ≠ scope → s.KeepsFrame m.store r) ∧
    (∀ block x m, (Eval.statements (Eval.expr depth) scope block).run ⟨s, output⟩ = some (x, m) →
      ∀ r, r ≠ scope → s.KeepsFrame m.store r) ∧
    (∀ p v m, (Machine.mk s output).runIn depth scope p = some (v, m) →
      ∀ r, r ≠ scope → s.KeepsFrame m.store r) ∧
    (∀ f args x m, (Eval.apply (Eval.expr depth) f args).run ⟨s, output⟩ = some (x, m) →
      ∀ r, s.KeepsFrame m.store r) := by
  have hexpr := (bindsIn (· = scope) s.frames.size).keeps_expr depth
  have hscope : (bindsIn (· = scope) s.frames.size).scope s scope := .inl rfl
  refine ⟨fun e x m h r hr => ?_, fun st x m h r hr => ?_, fun block x m h r hr => ?_, fun p v m h r hr => ?_,
    fun f args x m h r => ?_⟩
  · exact (hexpr e scope s (Nat.le_refl _) hscope).keepsFrame h hr
  · exact (keeps_statement hexpr (Nat.le_refl _) hscope st).keepsFrame h hr
  · exact (keeps_statements hexpr (Nat.le_refl _) hscope block).keepsFrame h hr
  · intro f hf
    have hrun := runIn_keeps (bindsIn (· = scope) s.frames.size) (s := s) (Nat.le_refl _) hscope h
    rw [hrun.1.grows r hr (Store.index_lt_of_frame? hf), hf]
  · -- a call has no scope of its own yet: none of the old ones may change
    have hbody := (bindsIn (fun _ => False) s.frames.size).keeps_expr depth
    have hargs : ∀ v ∈ args, (bindsIn (fun _ => False) s.frames.size).value s v := fun _ _ => trivial
    exact (keeps_apply hbody (s := s) (Nat.le_refl _) f hargs).keepsFrame h not_false

/-- The global scope binds `x` and a function that binds its own `x`; another scope is inside it. -/
def shadowing : Store :=
  ⟨#[⟨[("f", .function ⟨0⟩), ("x", .int 1)], none⟩, ⟨[], some ⟨0⟩⟩], #[], #[],
    #[⟨[], [.bind "x" (.int 2), .expr (.ident "x")], ⟨0⟩⟩]⟩

/-- `let y = f();` in the inner scope: both scopes of the call chain bind a name, the global one does not. -/
theorem evaluation_keeps_frames_shadowing : ∃ x m,
    (Eval.statement (Eval.expr 3) ⟨1⟩ (.bind "y" (.call (.ident "f") []))).run ⟨shadowing, ""⟩ =
      some (.ok x, m) ∧ m.store.locals ⟨1⟩ = [("y", .int 2)] ∧ shadowing.KeepsFrame m.store ⟨0⟩ :=
  ⟨_, _, rfl, rfl,
    (evaluation_keeps_frames shadowing "" 3 ⟨1⟩).2.1 (.bind "y" (.call (.ident "f") [])) _ _ rfl ⟨0⟩ (by decide)⟩

end MonkeyLang
