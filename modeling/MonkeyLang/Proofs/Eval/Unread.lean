/-
Bindings that nothing reads. Two stores may differ in the bindings of some names (`SameBut`). If each of
these names is that of a built-in function, which is found before any binding, or is read neither by a
program nor by a function of the store, then the program runs the same on both stores and leaves stores
that again differ in nothing but these bindings (`unread_bindings_change_nothing`).
-/
import MonkeyLang.Proofs.Eval.Simulation

namespace MonkeyLang

namespace Store

variable {N : String → Prop} {s t u : Store}

/-! ## Stores with different bindings -/

/-- The stores are equal except for the bindings of the names in `N`. -/
structure SameBut (N : String → Prop) (s t : Store) : Prop where
  outer : ∀ r, (t.frame? r).map Frame.outer = (s.frame? r).map Frame.outer
  bindings : ∀ r x, ¬ N x → (t.locals r).get? x = (s.locals r).get? x
  arrays : t.arrays = s.arrays
  hashes : t.hashes = s.hashes
  closures : t.closures = s.closures

theorem SameBut.refl (N : String → Prop) (s : Store) : s.SameBut N s :=
  ⟨fun _ => rfl, fun _ _ _ => rfl, rfl, rfl, rfl⟩

theorem SameBut.symm (h : s.SameBut N t) : t.SameBut N s where
  outer r := (h.outer r).symm
  bindings r x hx := (h.bindings r x hx).symm
  arrays := h.arrays.symm
  hashes := h.hashes.symm
  closures := h.closures.symm

theorem SameBut.trans (h : s.SameBut N t) (h' : t.SameBut N u) : s.SameBut N u where
  outer r := (h'.outer r).trans (h.outer r)
  bindings r x hx := (h'.bindings r x hx).trans (h.bindings r x hx)
  arrays := h'.arrays.trans h.arrays
  hashes := h'.hashes.trans h.hashes
  closures := h'.closures.trans h.closures

theorem SameBut.isSome_frame? (h : s.SameBut N t) (r : FrameRef) :
    (t.frame? r).isSome = (s.frame? r).isSome := by
  have hsome := congrArg Option.isSome (h.outer r)
  rwa [Option.isSome_map, Option.isSome_map] at hsome

theorem SameBut.frames (h : s.SameBut N t) : t.frames.size = s.frames.size := by
  refine Nat.le_antisymm (size_le_of_getElem? fun i f hf => ?_) (size_le_of_getElem? fun i f hf => ?_)
  · exact Option.isSome_iff_exists.1 ((h.isSome_frame? ⟨i⟩).symm.trans (Option.isSome_iff_exists.2 ⟨f, hf⟩))
  · exact Option.isSome_iff_exists.1 ((h.isSome_frame? ⟨i⟩).trans (Option.isSome_iff_exists.2 ⟨f, hf⟩))

/-! ## Reading -/

theorem SameBut.lookupWithin (h : s.SameBut N t) {x : String} (hx : ¬ N x) (n : Nat) (r : FrameRef) :
    t.lookupWithin x n r = s.lookupWithin x n r := by
  induction n generalizing r with
  | zero => exact h.bindings r x hx
  | succ n ih =>
    have houter : (t.frame? r).bind Frame.outer = (s.frame? r).bind Frame.outer := by
      simpa only [Option.bind_map, Function.id_comp] using congrArg (Option.bind · id) (h.outer r)
    simp only [Store.lookupWithin, h.bindings r x hx, houter]
    cases (s.locals r).get? x with
    | some v => rfl
    | none => exact congrArg (Option.bind _) (funext ih)

theorem SameBut.lookup (h : s.SameBut N t) {x : String} (hx : ¬ N x) (r : FrameRef) :
    t.lookup r x = s.lookup r x := by
  rw [Store.lookup, Store.lookup, h.frames, h.lookupWithin hx]

/-! ## Changing -/

theorem SameBut.newFrame (h : s.SameBut N t) (outer : FrameRef) :
    (s.newFrame outer).2.SameBut N (t.newFrame outer).2 where
  outer r := by
    rw [frame?_newFrame_eq, frame?_newFrame_eq, h.frames]
    split
    · rfl
    · exact h.outer r
  bindings r x hx := by
    simp only [Store.locals, frame?_newFrame_eq, h.frames]
    split
    · rfl
    · exact h.bindings r x hx
  arrays := h.arrays
  hashes := h.hashes
  closures := h.closures

theorem SameBut.define (h : s.SameBut N t) (r : FrameRef) (x : String) (v : Value) :
    (s.define r x v).SameBut N (t.define r x v) where
  outer q := by rw [map_outer_define, map_outer_define, h.outer q]
  bindings q y hy := by rw [get?_locals_define, get?_locals_define, h.isSome_frame?, h.bindings q y hy]
  arrays := h.arrays
  hashes := h.hashes
  closures := h.closures

/-- A name of `N` may be bound in one store alone. -/
theorem sameBut_define {x : String} (hx : N x) (s : Store) (r : FrameRef) (v : Value) :
    s.SameBut N (s.define r x v) where
  outer q := map_outer_define s r q x v
  bindings q y hy := by
    rw [get?_locals_define, if_neg]
    rintro ⟨-, -, rfl⟩
    exact hy hx
  arrays := rfl
  hashes := rfl
  closures := rfl

end Store

/-! ## Running -/

namespace Eval

/-- A name that may be read although the bindings of `N` differ. -/
def Readable (N : String → Prop) (x : String) : Prop := N x → (Builtin.ofName? x).isSome

theorem Readable.not_of_ofName? {N : String → Prop} {x : String} (h : Readable N x)
    (hb : Builtin.ofName? x = none) : ¬ N x := by
  intro hx
  have hsome := h hx
  rw [hb] at hsome
  cases hsome

theorem readable_of_builtin (b : Builtin) (x : String) : Readable (· = b.name) x := by
  rintro rfl
  rw [Builtin.ofName?_name]
  rfl

/-- No function of the store reads a binding that may differ. -/
structure Unread (N : String → Prop) (s t : Store) : Prop extends Store.SameBut N s t where
  readable : ∀ c ∈ s.closures, ∀ x ∈ c.names, Readable N x

def Simulation.unread (N : String → Prop) : Simulation where
  stores := Unread N
  value _ := True
  scope _ := True
  name := Readable N
  atomic _ := trivial
  elements h _ := ⟨by rw [Store.elements, Store.elements, h.arrays], fun _ _ => trivial⟩
  hash h _ := ⟨by rw [Store.hash, Store.hash, h.hashes], fun _ _ => ⟨trivial, trivial⟩⟩
  closure? h _ := ⟨by rw [Store.closure?, Store.closure?, h.closures],
    fun _ hc => ⟨trivial, h.readable _ (Array.mem_of_getElem? hc)⟩⟩
  lookup h _ hx hb := ⟨h.lookup (hx.not_of_ofName? hb) _, fun _ _ => trivial⟩
  depthBound h := by rw [Store.depthBound, Store.depthBound, h.arrays, h.hashes]
  newFrame h _ := ⟨congrArg FrameRef.mk h.frames, trivial, h.newFrame _, h.readable⟩
  newArray {s t vs} h _ := ⟨congrArg (ArrayRef.mk ·.size) h.arrays, trivial,
    ⟨h.outer, h.bindings, congrArg (·.push vs) h.arrays, h.hashes, h.closures⟩, h.readable⟩
  newHash {s t x} h _ := ⟨congrArg (HashRef.mk ·.size) h.hashes, trivial,
    ⟨h.outer, h.bindings, h.arrays, congrArg (·.push x) h.hashes, h.closures⟩, h.readable⟩
  newClosure {s t c} h _ hc := ⟨congrArg (ClosureRef.mk ·.size) h.closures, trivial,
    ⟨h.outer, h.bindings, h.arrays, h.hashes, congrArg (·.push c) h.closures⟩, fun d hd => by
      rcases Array.mem_push.1 hd with hd | rfl
      · exact h.readable d hd
      · exact hc⟩
  define h _ _ := ⟨h.define _ _ _, h.readable⟩
  append {s t r v} h _ _ := ⟨⟨h.outer, h.bindings, congrArg (·.modify r.index fun a => a.push v) h.arrays,
    h.hashes, h.closures⟩, h.readable⟩

theorem bind_pure {α : Type} (e : Eval α) : e >>= pure = e := by
  funext m
  show (e >>= pure).run m = e.run m
  rw [run_bind]
  split
  · next a m' h => exact h.symm
  · next sig m' h => exact h.symm
  · next h => exact h.symm

/-- To bind a name of `N` on the way makes no difference. -/
theorem Simulation.inStep_bindUnread {N : String → Prop} {s t : Store} {x : String} (hx : N x) {e : Expr}
    {expr : Expr → FrameRef → Eval Value} {r : FrameRef}
    (h : (unread N).InStep (expr e r) (expr e r) s t fun _ => True) :
    (unread N).InStep (statement expr r (.expr e)) (statement expr r (.bind x e)) s t fun _ => True := by
  show (unread N).InStep (expr e r) (expr e r >>= fun v => Eval.define r x v >>= fun _ => pure v) s t _
  nth_rewrite 1 [← bind_pure (expr e r)]
  refine inStep_bind h fun s' t' v h' _ output output' => ?_
  have hnext : Unread N s' (t'.define r x v) :=
    ⟨h'.toSameBut.trans (Store.sameBut_define hx t' r v), h'.readable⟩
  exact Together.silent (S := unread N) (Q := fun _ => True) (r := .ok v) hnext trivial output output'

/-- What is passed for a parameter with a name of `N` plays no part. -/
theorem Simulation.inStep_bindParamsUnread {N : String → Prop} {s t : Store} (h : Unread N s t) (r : FrameRef)
    (ps : List String) {vs vs' : List Value} (hlen : vs'.length = vs.length)
    (hsame : ∀ (i : Nat) p, ps[i]? = some p → ¬ N p → vs'[i]? = vs[i]?) :
    (unread N).InStep (bindParams r ps vs) (bindParams r ps vs') s t fun _ => True := by
  induction ps generalizing s t vs vs' with
  | nil => exact inStep_pure h trivial
  | cons p ps ih =>
    match vs, vs', hlen with
    | [], [], _ => exact inStep_pure h trivial
    | v :: vs, v' :: vs', hlen =>
      have hnext : Unread N (s.define r p v) (t.define r p v') := by
        refine ⟨?_, h.readable⟩
        by_cases hp : N p
        · exact ((Store.sameBut_define hp s r v).symm.trans h.toSameBut).trans (Store.sameBut_define hp t r v')
        · obtain rfl : v' = v := Option.some.inj (hsame 0 p rfl hp)
          exact h.define r p v'
      have hdefine : (unread N).InStep (Eval.define r p v) (Eval.define r p v') s t fun _ => True :=
        Together.silent (S := unread N) (Q := fun _ => True) (r := .ok ()) hnext trivial
      refine inStep_bind hdefine fun s₁ t₁ _ h₁ _ => ih h₁ (by simpa using hlen) fun i q hq hN => ?_
      exact hsame (i + 1) q hq hN

theorem Simulation.inStep_applyClosureUnread {N : String → Prop} {s t : Store} (h : Unread N s t) {c : Closure}
    (hc : ∀ x ∈ c.names, Readable N x) {args args' : List Value} (hlen : args'.length = args.length)
    (hsame : ∀ (i : Nat) p, c.params[i]? = some p → ¬ N p → args'[i]? = args[i]?) (depth : Nat) :
    (unread N).InStep (applyClosure (expr depth) c args) (applyClosure (expr depth) c args') s t fun _ => True := by
  unfold applyClosure
  rw [hlen]
  split
  · have hframe : (unread N).InStep (update (·.newFrame c.scope)) (update (·.newFrame c.scope)) s t fun _ => True :=
      inStep_update ((unread N).newFrame h trivial)
    refine inStep_bind hframe fun s₁ t₁ r h₁ _ => ?_
    refine inStep_bind (inStep_bindParamsUnread h₁ r c.params hlen hsame) fun s₂ t₂ _ h₂ _ => ?_
    exact inStep_call (inStep_statements ((unread N).inStep_expr depth) h₂ trivial hc)
  · exact inStep_failed h _

end Eval

/-- Two runs, one from the machine `m` and one from the machine `n`, are both cut short; or they end with
the same result after printing the same, in stores that are equal except for the bindings of the names in `N`. -/
inductive RunsSameBut {ρ : Type} (N : String → Prop) (m n : Machine) :
    Option (ρ × Machine) → Option (ρ × Machine) → Prop where
  | cutShort : RunsSameBut N m n none none
  | ended (r : ρ) (m' n' : Machine) (printed : String) (hm : m'.output = m.output ++ printed)
    (hn : n'.output = n.output ++ printed) (stores : m'.store.SameBut N n'.store) :
    RunsSameBut N m n (some (r, m')) (some (r, n'))

theorem Eval.Simulation.InStep.runSameBut {N : String → Prop} {s t : Store} {e e' : Eval Value}
    (h : (unread N).InStep e e' s t fun _ => True) (output output' : String) :
    RunsSameBut N ⟨s, output⟩ ⟨t, output'⟩ (e.run ⟨s, output⟩) (e'.run ⟨t, output'⟩) := by
  have hrun := h output output'
  generalize e.run ⟨s, output⟩ = x at hrun
  generalize e'.run ⟨t, output'⟩ = y at hrun
  cases hrun with
  | cutShort => exact .cutShort
  | @ended r m n printed hs hm hn _ => exact .ended r m n printed hm hn hs.toSameBut

theorem Eval.Simulation.InStep.runsSameBut {N : String → Prop} {s t : Store} {depth : Nat} {scope : FrameRef}
    {p q : Program} (h : (unread N).InStep (statements (expr depth) scope p.statements)
      (statements (expr depth) scope q.statements) s t fun _ => True) (output output' : String) :
    RunsSameBut N ⟨s, output⟩ ⟨t, output'⟩ ((Machine.mk s output).runIn depth scope p)
      ((Machine.mk t output').runIn depth scope q) := by
  have hrun := h.runSameBut output output'
  unfold Machine.runIn
  generalize (statements (expr depth) scope p.statements).run ⟨s, output⟩ = x at hrun
  generalize (statements (expr depth) scope q.statements).run ⟨t, output'⟩ = y at hrun
  cases hrun with
  | cutShort => exact .cutShort
  | ended r m n printed hm hn hs =>
    match r with
    | .ok v => exact .ended v m n printed hm hn hs
    | .error (.returned v) => exact .ended v m n printed hm hn hs
    | .error (.failed e) => exact .ended (Value.error e) m n printed hm hn hs

open Eval.Simulation in
/-- Let each name of `N` be that of a built-in function, or else be read neither by a program nor by any
function of the store. On stores that are equal except for the bindings of `N` the program runs the same,
at every depth: it comes to its end on both or on neither, with the same value and the same output, in
stores that are again equal except for these bindings. So it changes nothing to bind the name of a built-in
function in whatever scope, a program that does so itself could as well leave it, and what a call passes
for a parameter of such a name plays no part. -/
theorem unread_bindings_change_nothing (s : Store) (output output' : String) (depth : Nat) (scope : FrameRef) :
    (∀ (N : String → Prop) (t : Store) (p : Program), s.SameBut N t →
      (∀ x, N x → (Builtin.ofName? x).isSome ∨ (x ∉ p.names ∧ ∀ c ∈ s.closures, x ∉ c.names)) →
      RunsSameBut N ⟨s, output⟩ ⟨t, output'⟩ ((Machine.mk s output).runIn depth scope p)
        ((Machine.mk t output').runIn depth scope p)) ∧
    (∀ (b : Builtin) (r : FrameRef) (v : Value) (p : Program),
      RunsSameBut (· = b.name) ⟨s, output⟩ ⟨s.define r b.name v, output'⟩
        ((Machine.mk s output).runIn depth scope p)
        ((Machine.mk (s.define r b.name v) output').runIn depth scope p)) ∧
    (∀ (b : Builtin) (e : Expr) (rest : List Stmt),
      RunsSameBut (· = b.name) ⟨s, output⟩ ⟨s, output'⟩
        ((Machine.mk s output).runIn depth scope ⟨.expr e :: rest⟩)
        ((Machine.mk s output').runIn depth scope ⟨.bind b.name e :: rest⟩)) ∧
    ∀ (b : Builtin) (c : Closure) (args args' : List Value), args'.length = args.length →
      (∀ (i : Nat) p, c.params[i]? = some p → p ≠ b.name → args'[i]? = args[i]?) →
      RunsSameBut (· = b.name) ⟨s, output⟩ ⟨s, output'⟩
        ((Eval.applyClosure (Eval.expr depth) c args).run ⟨s, output⟩)
        ((Eval.applyClosure (Eval.expr depth) c args').run ⟨s, output'⟩) := by
  refine ⟨fun N t p h hN => ?_, fun b r v p => ?_, fun b e rest => ?_, fun b c args args' hlen hsame => ?_⟩
  · have hreadable : ∀ x, (x ∈ p.names ∨ ∃ c ∈ s.closures, x ∈ c.names) → Eval.Readable N x := by
      intro x hread hx
      rcases hN x hx with hb | ⟨hp, hc⟩
      · exact hb
      · rcases hread with hread | ⟨c, hmem, hread⟩
        · exact absurd hread hp
        · exact absurd hread (hc c hmem)
    have hst : Eval.Unread N s t := ⟨h, fun c hc x hx => hreadable x (.inr ⟨c, hc, hx⟩)⟩
    refine InStep.runsSameBut ?_ output output'
    exact inStep_statements ((unread N).inStep_expr depth) hst trivial fun x hx => hreadable x (.inl hx)
  · have hall := Eval.readable_of_builtin b
    have hst : Eval.Unread (· = b.name) s (s.define r b.name v) :=
      ⟨Store.sameBut_define (N := (· = b.name)) rfl s r v, fun _ _ x _ => hall x⟩
    refine InStep.runsSameBut ?_ output output'
    exact inStep_statements ((unread _).inStep_expr depth) hst trivial fun x _ => hall x
  · have hall := Eval.readable_of_builtin b
    have hexpr := (unread (· = b.name)).inStep_expr depth
    have hst : Eval.Unread (· = b.name) s s := ⟨.refl _ s, fun _ _ x _ => hall x⟩
    refine InStep.runsSameBut (p := ⟨.expr e :: rest⟩) ?_ output output'
    refine inStep_bind (inStep_bindUnread (N := (· = b.name)) rfl (hexpr e scope s s (fun x _ => hall x) hst trivial)) ?_
    exact fun s₁ t₁ v h₁ _ => inStep_statementsAfter hexpr h₁ trivial trivial fun x _ => hall x
  · have hall := Eval.readable_of_builtin b
    have hst : Eval.Unread (· = b.name) s s := ⟨.refl _ s, fun _ _ x _ => hall x⟩
    refine InStep.runSameBut ?_ output output'
    exact inStep_applyClosureUnread hst (fun x _ => hall x) hlen hsame depth

/-- A function of `len` and `a` that gives the length of `a`. -/
def measure : Closure := ⟨["len", "a"], [.expr (.call (.ident "len") [.ident "a"])], ⟨0⟩⟩

/-- The function as `f`, in a scope with further bindings. -/
def measuring (more : Bindings) : Store := ⟨#[⟨("f", .function ⟨0⟩) :: more, none⟩], #[], #[], #[measure]⟩

theorem sameBut_measuring : (measuring [("len", .int 3), ("y", .int 1)]).SameBut (· ∈ ["len", "y"]) (measuring []) where
  outer r := by
    obtain ⟨_ | i⟩ := r <;> rfl
  bindings r x hx := by
    obtain ⟨_ | i⟩ := r
    · simp_all [measuring, Store.locals, Store.frame?, Bindings.get?]
    · rfl
  arrays := rfl
  hashes := rfl
  closures := rfl

/-- The program `let len = 7; f(5, [1, 2])` does not notice what `len` and `y` are bound to, nor does the
function what is passed for `len`. -/
theorem unread_bindings_change_nothing_measuring :
    let p : Program := ⟨[.bind "len" (.int 7), .expr (.call (.ident "f") [.int 5, .array [.int 1, .int 2]])]⟩
    (∀ x ∈ ["len", "y"], (Builtin.ofName? x).isSome ∨
      (x ∉ p.names ∧ ∀ c ∈ (measuring [("len", .int 3), ("y", .int 1)]).closures, x ∉ c.names)) ∧
    (∃ m, (Machine.mk (measuring []) "").runIn 4 ⟨0⟩ p = some (.int 2, m)) ∧
    RunsSameBut (· ∈ ["len", "y"]) ⟨measuring [("len", .int 3), ("y", .int 1)], ""⟩ ⟨measuring [], ""⟩
      ((Machine.mk (measuring [("len", .int 3), ("y", .int 1)]) "").runIn 4 ⟨0⟩ p)
      ((Machine.mk (measuring []) "").runIn 4 ⟨0⟩ p) ∧
    RunsSameBut (· = "len") ⟨measuring [], ""⟩ ⟨measuring [], ""⟩
      ((Eval.applyClosure (Eval.expr 4) measure [.int 5, .string "ab"]).run ⟨measuring [], ""⟩)
      ((Eval.applyClosure (Eval.expr 4) measure [.null, .string "ab"]).run ⟨measuring [], ""⟩) := by
  intro p
  have hN : ∀ x ∈ ["len", "y"], (Builtin.ofName? x).isSome ∨
      (x ∉ p.names ∧ ∀ c ∈ (measuring [("len", .int 3), ("y", .int 1)]).closures, x ∉ c.names) := by
    decide
  have hsame : ∀ (i : Nat) q, measure.params[i]? = some q → q ≠ "len" →
      [Value.null, .string "ab"][i]? = [Value.int 5, .string "ab"][i]? := by
    rintro (_ | i) q hq hne
    · cases hq
      exact absurd rfl hne
    · rfl
  refine ⟨hN, ⟨_, rfl⟩, ?_, ?_⟩
  · exact (unread_bindings_change_nothing _ "" "" 4 ⟨0⟩).1 _ _ p sameBut_measuring hN
  · exact (unread_bindings_change_nothing _ "" "" 4 ⟨0⟩).2.2.2 .len measure _ _ rfl hsame

end MonkeyLang
