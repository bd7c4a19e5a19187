/-
Two runs side by side. A `Simulation` says which pairs of stores two runs may pass through, which values
and scopes they may hold there and which names they may read, and that each operation on stores that an
evaluation uses leads from such a pair to such a pair with the same result. From there on no rule of
evaluation has to be looked at again: every expression that reads only such names ends in both runs in the
same way, after printing the same, or is cut short in both (`inStep_expr`).
-/
import MonkeyLang.Eval.Expression
import MonkeyLang.Proofs.Eval.Invariant

namespace MonkeyLang

/-! ## Names that are read -/

mutual

/-- The names that occur as expressions. Names that are bound and parameters do not. -/
def Expr.names : Expr → List String
  | .ident x => [x]
  | .int _ => []
  | .bool _ => []
  | .string _ => []
  | .array es => Expr.allNames es
  | .hash ps => Expr.pairNames ps
  | .function _ body => Stmt.allNames body
  | .unary _ e => e.names
  | .binary _ l r => l.names ++ r.names
  | .cond c t none => c.names ++ Stmt.allNames t
  | .cond c t (some a) => c.names ++ (Stmt.allNames t ++ Stmt.allNames a)
  | .call f args => f.names ++ Expr.allNames args
  | .index c k => c.names ++ k.names

def Expr.allNames : List Expr → List String
  | [] => []
  | e :: es => e.names ++ Expr.allNames es

def Expr.pairNames : List (Expr × Expr) → List String
  | [] => []
  | (k, v) :: ps => k.names ++ (v.names ++ Expr.pairNames ps)

def Stmt.names : Stmt → List String
  | .bind _ e => e.names
  | .ret none => []
  | .ret (some e) => e.names
  | .expr e => e.names

def Stmt.allNames : List Stmt → List String
  | [] => []
  | s :: ss => s.names ++ Stmt.allNames ss

end

def Program.names (p : Program) : List String := Stmt.allNames p.statements

def Closure.names (c : Closure) : List String := Stmt.allNames c.body

namespace Eval

/-- The pairs of stores that two runs may pass through, the values and scopes that both may hold there, and
the names that both may read. What is read is the same in both stores, and what is made or changed in the
same way leads to such a pair again. -/
structure Simulation where
  stores : Store → Store → Prop
  value : Value → Prop
  scope : FrameRef → Prop
  name : String → Prop
  atomic : ∀ {v}, v.Atomic → value v
  elements : ∀ {s t r}, stores s t → value (.array r) →
    t.elements r = s.elements r ∧ ∀ v ∈ s.elements r, value v
  hash : ∀ {s t r}, stores s t → value (.hash r) →
    t.hash r = s.hash r ∧ ∀ e ∈ (s.hash r).entries, value e.2.key ∧ value e.2.value
  closure? : ∀ {s t r}, stores s t → value (.function r) →
    t.closure? r = s.closure? r ∧ ∀ c, s.closure? r = some c → scope c.scope ∧ ∀ x ∈ c.names, name x
  /-- The names of built-in functions are never looked up. -/
  lookup : ∀ {s t r x}, stores s t → scope r → name x → Builtin.ofName? x = none →
    t.lookup r x = s.lookup r x ∧ ∀ v, s.lookup r x = some v → value v
  depthBound : ∀ {s t}, stores s t → t.depthBound = s.depthBound
  newFrame : ∀ {s t outer}, stores s t → scope outer → (t.newFrame outer).1 = (s.newFrame outer).1 ∧
    scope (s.newFrame outer).1 ∧ stores (s.newFrame outer).2 (t.newFrame outer).2
  newArray : ∀ {s t vs}, stores s t → (∀ v ∈ vs, value v) → (t.newArray vs).1 = (s.newArray vs).1 ∧
    value (.array (s.newArray vs).1) ∧ stores (s.newArray vs).2 (t.newArray vs).2
  newHash : ∀ {s t h}, stores s t → h.Holds value → (t.newHash h).1 = (s.newHash h).1 ∧
    value (.hash (s.newHash h).1) ∧ stores (s.newHash h).2 (t.newHash h).2
  newClosure : ∀ {s t c}, stores s t → scope c.scope → (∀ x ∈ c.names, name x) →
    (t.newClosure c).1 = (s.newClosure c).1 ∧ value (.function (s.newClosure c).1) ∧
      stores (s.newClosure c).2 (t.newClosure c).2
  define : ∀ {s t r x v}, stores s t → scope r → value v → stores (s.define r x v) (t.define r x v)
  append : ∀ {s t r v}, stores s t → value (.array r) → value v → stores (s.append r v) (t.append r v)

namespace Simulation

variable {S : Simulation} {s t : Store} {α β : Type} {Q : α → Prop} {R : β → Prop}

/-! ## Two evaluations in step -/

/-- What is known of an outcome: `Q` of a result, and of a value on its way back that it may be held. -/
def Carries (S : Simulation) (Q : α → Prop) : Except Signal α → Prop
  | .ok a => Q a
  | .error (.returned v) => S.value v
  | .error (.failed _) => True

/-- Both evaluations are cut short, or both come to their end in the same way. -/
inductive Together (S : Simulation) (Q : α → Prop) (m n : Machine) :
    Option (Except Signal α × Machine) → Option (Except Signal α × Machine) → Prop where
  | cutShort : Together S Q m n none none
  | ended {r : Except Signal α} {m' n' : Machine} {printed : String} (hs : S.stores m'.store n'.store)
    (hm : m'.output = m.output ++ printed) (hn : n'.output = n.output ++ printed) (hr : S.Carries Q r) :
    Together S Q m n (some (r, m')) (some (r, n'))

def InStep (S : Simulation) (e e' : Eval α) (s t : Store) (Q : α → Prop) : Prop :=
  ∀ output output', S.Together Q ⟨s, output⟩ ⟨t, output'⟩ (e.run ⟨s, output⟩) (e'.run ⟨t, output'⟩)

/-- Both evaluations end at once and print nothing. -/
theorem Together.silent {r : Except Signal α} {s' t' : Store} (h : S.stores s' t') (hr : S.Carries Q r)
    (output output' : String) :
    S.Together Q ⟨s, output⟩ ⟨t, output'⟩ (some (r, ⟨s', output⟩)) (some (r, ⟨t', output'⟩)) :=
  have hnone (x : String) : x = x ++ "" := String.append_empty.symm
  .ended h (hnone output) (hnone output') hr

theorem inStep_pure (h : S.stores s t) {a : α} (ha : Q a) : S.InStep (pure a) (pure a) s t Q :=
  fun output output' => .silent (r := .ok a) h ha output output'

theorem inStep_bind {e e' : Eval α} {f f' : α → Eval β} (he : S.InStep e e' s t Q)
    (hf : ∀ s' t' a, S.stores s' t' → Q a → S.InStep (f a) (f' a) s' t' R) :
    S.InStep (e >>= f) (e' >>= f') s t R := by
  intro output output'
  rw [run_bind, run_bind]
  generalize hx : e.run ⟨s, output⟩ = x
  generalize hy : e'.run ⟨t, output'⟩ = y
  have hxy := he output output'
  rw [hx, hy] at hxy
  cases hxy with
  | cutShort => exact .cutShort
  | @ended r m n printed hs hm hn hr =>
    cases r with
    | ok a =>
      have hnext := hf m.store n.store a hs hr m.output n.output
      show S.Together R _ _ ((f a).run m) ((f' a).run n)
      generalize (f a).run m = x' at hnext
      generalize (f' a).run n = y' at hnext
      cases hnext with
      | cutShort => exact .cutShort
      | ended hs' hm' hn' hr' =>
        exact .ended hs' (by rw [hm', hm, String.append_assoc]) (by rw [hn', hn, String.append_assoc]) hr'
    | error sig =>
      refine .ended hs hm hn ?_
      cases sig with
      | returned v => exact hr
      | failed e => trivial

theorem inStep_failed (h : S.stores s t) (e : RuntimeError) :
    S.InStep (signal (.failed e)) (signal (.failed e)) s t Q :=
  fun output output' => .silent (r := .error (.failed e)) h trivial output output'

theorem inStep_returned (h : S.stores s t) {v : Value} (hv : S.value v) :
    S.InStep (signal (.returned v)) (signal (.returned v)) s t Q :=
  fun output output' => .silent (r := .error (.returned v)) h hv output output'

theorem inStep_ofExcept (h : S.stores s t) {x : Except RuntimeError α} (hx : ∀ a, x = .ok a → Q a) :
    S.InStep (ofExcept x) (ofExcept x) s t Q := by
  cases x with
  | ok a => exact inStep_pure h (hx a rfl)
  | error e => exact inStep_failed h e

/-- What comes after a look at the store may depend on it. -/
theorem inStep_store {f f' : Store → Eval α} (h : S.InStep (f s) (f' t) s t Q) :
    S.InStep (store >>= f) (store >>= f') s t Q := h

theorem inStep_update {f : Store → α × Store}
    (h : (f t).1 = (f s).1 ∧ Q (f s).1 ∧ S.stores (f s).2 (f t).2) : S.InStep (update f) (update f) s t Q := by
  obtain ⟨heq, hq, hs⟩ := h
  intro output output'
  show S.Together Q _ _ (some (.ok (f s).1, ⟨(f s).2, output⟩)) (some (.ok (f t).1, ⟨(f t).2, output'⟩))
  rw [heq]
  exact .silent (r := .ok (f s).1) hs hq output output'

/-- A new place in both stores, and the value that refers to it. -/
theorem inStep_make {f : Store → α × Store} {g : α → Value}
    (h : (f t).1 = (f s).1 ∧ S.value (g (f s).1) ∧ S.stores (f s).2 (f t).2) :
    S.InStep (do let r ← update f; return g r) (do let r ← update f; return g r) s t S.value :=
  inStep_bind (inStep_update (Q := fun r => S.value (g r)) h) fun _ _ _ h' hr => inStep_pure h' hr

theorem inStep_define (h : S.stores s t) {r : FrameRef} (hr : S.scope r) (x : String) {v : Value}
    (hv : S.value v) : S.InStep (Eval.define r x v) (Eval.define r x v) s t fun _ => True :=
  inStep_update ⟨rfl, trivial, S.define h hr hv⟩

theorem inStep_call {e e' : Eval Value} (h : S.InStep e e' s t S.value) :
    S.InStep (call e) (call e') s t S.value := by
  intro output output'
  have hee := h output output'
  unfold run call at *
  generalize e ⟨s, output⟩ = x at hee
  generalize e' ⟨t, output'⟩ = y at hee
  cases hee with
  | cutShort => exact .cutShort
  | @ended r m n printed hs hm hn hr =>
    -- a return inside becomes the value of the call, in both runs
    cases r with
    | ok v => exact .ended hs hm hn hr
    | error sig =>
      cases sig with
      | returned v => exact .ended (r := .ok v) hs hm hn hr
      | failed err => exact .ended hs hm hn trivial

/-! ## Operators, subscripts and built-in functions -/

theorem value_getD {x : Option Value} (h : ∀ v, x = some v → S.value v) : S.value (x.getD .null) := by
  cases x with
  | none => exact S.atomic trivial
  | some v => exact h v rfl

theorem subscript_eq (h : S.stores s t) {v : Value} (hv : S.value v) (w : Value) :
    t.subscript v w = s.subscript v w ∧ ∀ x, s.subscript v w = .ok x → S.value x := by
  cases v with
  | array r =>
    obtain ⟨hsame, hin⟩ := S.elements h hv
    cases w with
    | int i =>
      simp only [Store.subscript, Store.elementAt, hsame, true_and]
      intro x hx
      cases hx
      split
      · exact S.atomic trivial
      · exact value_getD fun v hv => hin v (Array.mem_of_getElem? hv)
    | _ => exact ⟨rfl, fun x hx => nomatch hx⟩
  | hash r =>
    obtain ⟨hsame, hin⟩ := S.hash h hv
    simp only [Store.subscript, Store.valueAt, hsame, true_and]
    intro x hx
    split at hx <;> cases hx
    refine value_getD fun v hv => ?_
    obtain ⟨p, hp, rfl⟩ := Option.map_eq_some_iff.1 hv
    exact (hin _ (Hash.mem_of_findEntry hp)).2
  | _ => exact ⟨rfl, fun x hx => nomatch hx⟩

theorem outlineWithin_eq (h : S.stores s t) (n : Nat) (path : List ArrayRef) {v : Value} (hv : S.value v) :
    t.outlineWithin n path v = s.outlineWithin n path v := by
  induction n generalizing path v with
  | zero => rfl
  | succ n ih =>
    cases v with
    | array r =>
      obtain ⟨hsame, hin⟩ := S.elements h hv
      simp only [Store.outlineWithin, hsame]
      have hmap := List.map_congr_left fun w (hw : w ∈ (s.elements r).toList) =>
        ih (r :: path) (hin w (Array.mem_toList_iff.1 hw))
      rw [hmap]
    | hash r =>
      obtain ⟨hsame, hin⟩ := S.hash h hv
      simp only [Store.outlineWithin, hsame, Hash.pairs, List.map_map]
      have hmap := List.map_congr_left fun e (he : e ∈ (s.hash r).entries) =>
        congrArg₂ Prod.mk (ih path (hin e he).1) (ih path (hin e he).2)
      exact congrArg Outline.hash hmap
    | function r => simp only [Store.outlineWithin, (S.closure? h hv).1]
    | _ => rfl

theorem text_eq (h : S.stores s t) {v : Value} (hv : S.value v) : t.text v = s.text v := by
  rw [Store.text, Store.text, Store.outline, Store.outline, S.depthBound h, outlineWithin_eq h _ _ hv]

/-- A built-in function ends alike on both machines. -/
structure BuiltinAlike (S : Simulation) (m n : Machine) (x y : Except RuntimeError Value × Machine) : Prop where
  result : y.1 = x.1
  value : ∀ v, x.1 = .ok v → S.value v
  stores : S.stores x.2.store y.2.store
  output : ∃ printed, x.2.output = m.output ++ printed ∧ y.2.output = n.output ++ printed

/-- A built-in function that only changes the store. -/
theorem BuiltinAlike.silent {x y : Except RuntimeError Value × Store} (heq : y.1 = x.1)
    (hv : ∀ v, x.1 = .ok v → S.value v) (hs : S.stores x.2 y.2) (output output' : String) :
    S.BuiltinAlike ⟨s, output⟩ ⟨t, output'⟩ (x.1, ⟨x.2, output⟩) (y.1, ⟨y.2, output'⟩) :=
  ⟨heq, hv, hs, "", by simp⟩

theorem value_of_soleArray {b : Builtin} {args : List Value} (ha : ∀ v ∈ args, S.value v) {r : ArrayRef}
    (h : b.soleArray args = .ok r) : S.value (.array r) := by
  unfold Builtin.soleArray at h
  split at h <;> cases h
  exact ha (.array r) (by simp)

theorem lenOf_eq (h : S.stores s t) {args : List Value} (ha : ∀ v ∈ args, S.value v) :
    Builtin.lenOf t args = Builtin.lenOf s args ∧ ∀ v, Builtin.lenOf s args = .ok v → S.value v := by
  unfold Builtin.lenOf
  split
  · exact ⟨rfl, fun v hv => by cases hv; exact S.atomic trivial⟩
  · next r =>
    rw [(S.elements h (ha (.array r) (by simp))).1]
    exact ⟨rfl, fun v hv => by cases hv; exact S.atomic trivial⟩
  · exact ⟨rfl, fun v hv => nomatch hv⟩
  · exact ⟨rfl, fun v hv => nomatch hv⟩

theorem headOf_eq (h : S.stores s t) {args : List Value} (ha : ∀ v ∈ args, S.value v) :
    Builtin.headOf t args = Builtin.headOf s args ∧ ∀ v, Builtin.headOf s args = .ok v → S.value v := by
  unfold Builtin.headOf
  cases hr : Builtin.soleArray .head args with
  | error e => exact ⟨rfl, fun v hv => nomatch hv⟩
  | ok r =>
    obtain ⟨hsame, hin⟩ := S.elements h (value_of_soleArray ha hr)
    refine ⟨?_, fun v hv => ?_⟩
    · show Except.ok ((t.elements r).toList.head?.getD .null) = _
      rw [hsame]
      rfl
    · cases hv
      exact value_getD fun v hv => hin v (Array.mem_toList_iff.1 (List.mem_of_head? hv))

theorem lastOf_eq (h : S.stores s t) {args : List Value} (ha : ∀ v ∈ args, S.value v) :
    Builtin.lastOf t args = Builtin.lastOf s args ∧ ∀ v, Builtin.lastOf s args = .ok v → S.value v := by
  unfold Builtin.lastOf
  cases hr : Builtin.soleArray .last args with
  | error e => exact ⟨rfl, fun v hv => nomatch hv⟩
  | ok r =>
    obtain ⟨hsame, hin⟩ := S.elements h (value_of_soleArray ha hr)
    refine ⟨?_, fun v hv => ?_⟩
    · show Except.ok ((t.elements r).back?.getD .null) = _
      rw [hsame]
      rfl
    · cases hv
      exact value_getD fun v hv => hin v (Array.mem_of_back? hv)

theorem tailOf_eq (h : S.stores s t) {args : List Value} (ha : ∀ v ∈ args, S.value v) :
    (Builtin.tailOf t args).1 = (Builtin.tailOf s args).1 ∧
      (∀ v, (Builtin.tailOf s args).1 = .ok v → S.value v) ∧
      S.stores (Builtin.tailOf s args).2 (Builtin.tailOf t args).2 := by
  unfold Builtin.tailOf
  cases hr : Builtin.soleArray .tail args with
  | error e => exact ⟨rfl, fun v hv => (nomatch hv), h⟩
  | ok r =>
    obtain ⟨hsame, hin⟩ := S.elements h (value_of_soleArray ha hr)
    simp only [hsame]
    cases he : (s.elements r).toList with
    | nil => exact ⟨rfl, fun v hv => by cases hv; exact S.atomic trivial, h⟩
    | cons first rest =>
      have hrest : ∀ v ∈ rest.toArray, S.value v := fun v hv => by
        refine hin v (Array.mem_toList_iff.1 ?_)
        rw [he]
        exact List.mem_cons_of_mem first (List.mem_toArray.1 hv)
      obtain ⟨heq, hnew, hs⟩ := S.newArray h hrest
      exact ⟨congrArg (Except.ok ∘ Value.array) heq, fun v hv => by cases hv; exact hnew, hs⟩

theorem pushTo_eq (h : S.stores s t) {args : List Value} (ha : ∀ v ∈ args, S.value v) :
    (Builtin.pushTo t args).1 = (Builtin.pushTo s args).1 ∧
      (∀ v, (Builtin.pushTo s args).1 = .ok v → S.value v) ∧
      S.stores (Builtin.pushTo s args).2 (Builtin.pushTo t args).2 := by
  unfold Builtin.pushTo
  split
  · next r v =>
    have hr := ha (.array r) (by simp)
    exact ⟨rfl, fun w hw => by cases hw; exact hr, S.append h hr (ha v (by simp))⟩
  · exact ⟨rfl, fun v hv => (nomatch hv), h⟩
  · exact ⟨rfl, fun v hv => (nomatch hv), h⟩

theorem printAll_alike (h : S.stores s t) {vs : List Value} (hvs : ∀ v ∈ vs, S.value v)
    (output output' : String) : ∃ printed, Machine.printAll ⟨s, output⟩ vs = ⟨s, output ++ printed⟩ ∧
      Machine.printAll ⟨t, output'⟩ vs = ⟨t, output' ++ printed⟩ := by
  unfold Machine.printAll
  induction vs generalizing output output' with
  | nil => exact ⟨"", by simp⟩
  | cons v vs ih =>
    obtain ⟨printed, hs, ht⟩ := ih (fun w hw => hvs w (List.mem_cons_of_mem v hw))
      (output ++ s.text v ++ "\n") (output' ++ t.text v ++ "\n")
    refine ⟨s.text v ++ "\n" ++ printed, ?_, ?_⟩
    · rw [List.foldl_cons, Machine.print, hs]
      simp only [String.append_assoc]
    · rw [List.foldl_cons, Machine.print, ht, text_eq h (hvs v (by simp))]
      simp only [String.append_assoc]

theorem builtin_alike (h : S.stores s t) (b : Builtin) {args : List Value} (ha : ∀ v ∈ args, S.value v)
    (output output' : String) : S.BuiltinAlike ⟨s, output⟩ ⟨t, output'⟩ (b.apply args ⟨s, output⟩)
      (b.apply args ⟨t, output'⟩) := by
  cases b with
  | len => exact .silent (x := (_, s)) (y := (_, t)) (lenOf_eq h ha).1 (lenOf_eq h ha).2 h output output'
  | head => exact .silent (x := (_, s)) (y := (_, t)) (headOf_eq h ha).1 (headOf_eq h ha).2 h output output'
  | tail =>
    obtain ⟨heq, hv, hs⟩ := tailOf_eq h ha
    exact .silent heq hv hs output output'
  | last => exact .silent (x := (_, s)) (y := (_, t)) (lastOf_eq h ha).1 (lastOf_eq h ha).2 h output output'
  | push =>
    obtain ⟨heq, hv, hs⟩ := pushTo_eq h ha
    exact .silent heq hv hs output output'
  | puts =>
    obtain ⟨printed, hs, ht⟩ := printAll_alike h ha output output'
    refine ⟨rfl, fun v hv => by cases hv; exact S.atomic trivial, ?_, printed, ?_⟩
    · simp only [Builtin.apply, hs, ht, h]
    · simp only [Builtin.apply, hs, ht, and_self]

theorem inStep_builtin (h : S.stores s t) (b : Builtin) {args : List Value} (ha : ∀ v ∈ args, S.value v) :
    S.InStep (builtin b args) (builtin b args) s t S.value := by
  intro output output'
  obtain ⟨heq, hv, hs, printed, hm, hn⟩ := builtin_alike h b ha output output'
  unfold run builtin
  rcases hx : b.apply args ⟨s, output⟩ with ⟨x, m⟩
  rcases hy : b.apply args ⟨t, output'⟩ with ⟨y, n⟩
  rw [hx] at heq hv hs hm
  rw [hy] at heq hs hn
  simp only at heq
  subst heq
  cases y with
  | ok v => exact .ended hs hm hn (hv v rfl)
  | error e => exact .ended hs hm hn trivial

/-! ## Rules -/

section Rules

variable {expr : Expr → FrameRef → Eval Value} {r : FrameRef}
  (hexpr : ∀ e r s t, (∀ x ∈ e.names, S.name x) → S.stores s t → S.scope r →
    S.InStep (expr e r) (expr e r) s t S.value)

include hexpr

theorem inStep_all (h : S.stores s t) (hr : S.scope r) {es : List Expr} (hes : ∀ x ∈ Expr.allNames es, S.name x) :
    S.InStep (all expr r es) (all expr r es) s t fun vs => ∀ v ∈ vs, S.value v := by
  induction es generalizing s t with
  | nil => exact inStep_pure h (by simp)
  | cons e es ih =>
    obtain ⟨he, hes⟩ := List.forall_mem_append.1 hes
    refine inStep_bind (hexpr e r s t he h hr) fun s₁ t₁ v h₁ hv => ?_
    refine inStep_bind (ih h₁ hes) fun s₂ t₂ vs h₂ hvs => inStep_pure h₂ fun w hw => ?_
    rcases List.mem_cons.1 hw with rfl | hw
    · exact hv
    · exact hvs w hw

omit hexpr in
theorem inStep_keyOf (h : S.stores s t) (v : Value) : S.InStep (keyOf v) (keyOf v) s t fun _ => True := by
  unfold keyOf
  split
  · exact inStep_pure h trivial
  · exact inStep_failed h _

theorem inStep_pairs (h : S.stores s t) (hr : S.scope r) {ps : List (Expr × Expr)}
    (hps : ∀ x ∈ Expr.pairNames ps, S.name x) {x : Hash} (hx : x.Holds S.value) :
    S.InStep (pairs expr r x ps) (pairs expr r x ps) s t (Hash.Holds S.value) := by
  induction ps generalizing s t x with
  | nil => exact inStep_pure h hx
  | cons p ps ih =>
    obtain ⟨k, v⟩ := p
    obtain ⟨hk, hps⟩ := List.forall_mem_append.1 hps
    obtain ⟨hv, hps⟩ := List.forall_mem_append.1 hps
    refine inStep_bind (hexpr k r s t hk h hr) fun s₁ t₁ key h₁ hkey => ?_
    refine inStep_bind (inStep_keyOf h₁ key) fun s₂ t₂ hashKey h₂ _ => ?_
    refine inStep_bind (hexpr v r s₂ t₂ hv h₂ hr) fun s₃ t₃ value h₃ hvalue => ?_
    exact ih h₃ hps (hx.insert hkey hvalue)

theorem inStep_statement (h : S.stores s t) (hr : S.scope r) {st : Stmt} (hst : ∀ x ∈ st.names, S.name x) :
    S.InStep (statement expr r st) (statement expr r st) s t S.value := by
  match st, hst with
  | .bind x e, he =>
    refine inStep_bind (hexpr e r s t he h hr) fun s₁ t₁ v h₁ hv => ?_
    exact inStep_bind (inStep_define h₁ hr x hv) fun s₂ t₂ _ h₂ _ => inStep_pure h₂ hv
  | .ret (some e), he => exact inStep_bind (hexpr e r s t he h hr) fun s₁ t₁ v h₁ hv => inStep_returned h₁ hv
  | .ret none, _ => exact inStep_returned h (S.atomic trivial)
  | .expr e, he => exact hexpr e r s t he h hr

theorem inStep_statementsAfter (h : S.stores s t) (hr : S.scope r) {v : Value} (hv : S.value v)
    {ss : List Stmt} (hss : ∀ x ∈ Stmt.allNames ss, S.name x) :
    S.InStep (statementsAfter expr r v ss) (statementsAfter expr r v ss) s t S.value := by
  induction ss generalizing s t v with
  | nil => exact inStep_pure h hv
  | cons st ss ih =>
    obtain ⟨hst, hss⟩ := List.forall_mem_append.1 hss
    exact inStep_bind (inStep_statement hexpr h hr hst) fun s₁ t₁ w h₁ hw => ih h₁ hw hss

theorem inStep_statements (h : S.stores s t) (hr : S.scope r) {ss : List Stmt}
    (hss : ∀ x ∈ Stmt.allNames ss, S.name x) :
    S.InStep (statements expr r ss) (statements expr r ss) s t S.value :=
  inStep_statementsAfter hexpr h hr (S.atomic (v := .null) trivial) hss

omit hexpr in
theorem inStep_name (h : S.stores s t) (hr : S.scope r) {x : String} (hx : S.name x) :
    S.InStep (Eval.name r x) (Eval.name r x) s t S.value := by
  unfold Eval.name
  split
  · exact inStep_pure h (S.atomic trivial)
  · next hb =>
    obtain ⟨hsame, hin⟩ := S.lookup h hr hx hb
    refine inStep_store ?_
    rw [hsame]
    cases hv : s.lookup r x with
    | some v => exact inStep_pure h (hin v hv)
    | none => exact inStep_failed h _

omit hexpr in
theorem inStep_bindParams (h : S.stores s t) (hr : S.scope r) (ps : List String) {vs : List Value}
    (hvs : ∀ v ∈ vs, S.value v) : S.InStep (bindParams r ps vs) (bindParams r ps vs) s t fun _ => True := by
  induction ps generalizing s t vs with
  | nil => exact inStep_pure h trivial
  | cons p ps ih =>
    cases vs with
    | nil => exact inStep_pure h trivial
    | cons v vs =>
      refine inStep_bind (inStep_define h hr p (hvs v (by simp))) fun s₁ t₁ _ h₁ _ => ?_
      exact ih h₁ fun w hw => hvs w (List.mem_cons_of_mem v hw)

theorem inStep_applyClosure (h : S.stores s t) {c : Closure} (hc : S.scope c.scope)
    (hnames : ∀ x ∈ c.names, S.name x) {args : List Value} (ha : ∀ v ∈ args, S.value v) :
    S.InStep (applyClosure expr c args) (applyClosure expr c args) s t S.value := by
  unfold applyClosure
  split
  · have hframe : S.InStep (update (·.newFrame c.scope)) (update (·.newFrame c.scope)) s t S.scope :=
      inStep_update (S.newFrame h hc)
    refine inStep_bind hframe fun s₁ t₁ r h₁ hr => ?_
    refine inStep_bind (inStep_bindParams h₁ hr c.params ha) fun s₂ t₂ _ h₂ _ => ?_
    exact inStep_call (inStep_statements hexpr h₂ hr hnames)
  · exact inStep_failed h _

theorem inStep_apply (h : S.stores s t) {f : Value} (hf : S.value f) {args : List Value}
    (ha : ∀ v ∈ args, S.value v) : S.InStep (apply expr f args) (apply expr f args) s t S.value := by
  unfold apply
  split
  · next x =>
    obtain ⟨hsame, hin⟩ := S.closure? h hf
    refine inStep_store ?_
    rw [hsame]
    cases hc : s.closure? x with
    | some c => exact inStep_applyClosure hexpr h (hin c hc).1 (hin c hc).2 ha
    | none => exact inStep_failed h _
  · next b => exact inStep_builtin h b ha
  · exact inStep_failed h _

theorem inStep_level (h : S.stores s t) (hr : S.scope r) (e : Expr) (he : ∀ x ∈ e.names, S.name x) :
    S.InStep (level expr e r) (level expr e r) s t S.value := by
  cases e with
  | ident x => exact inStep_name h hr (he x (by simp [Expr.names]))
  | int n => exact inStep_pure h (S.atomic trivial)
  | bool b => exact inStep_pure h (S.atomic trivial)
  | string x => exact inStep_pure h (S.atomic trivial)
  | array es =>
    refine inStep_bind (inStep_all hexpr h hr he) fun s₁ t₁ vs h₁ hvs => ?_
    exact inStep_make (S.newArray h₁ fun v hv => hvs v (List.mem_toArray.1 hv))
  | hash ps =>
    refine inStep_bind (inStep_pairs hexpr h hr he (Hash.holds_empty _)) fun s₁ t₁ x h₁ hx => ?_
    exact inStep_make (S.newHash h₁ hx)
  | function params body => exact inStep_make (S.newClosure (c := ⟨params, body, r⟩) h hr he)
  | unary op e =>
    refine inStep_bind (hexpr e r s t he h hr) fun s₁ t₁ v h₁ _ => ?_
    exact inStep_ofExcept h₁ fun w hw => S.atomic (Invariant.atomic_of_unary hw)
  | binary op a b =>
    obtain ⟨ha, hb⟩ := List.forall_mem_append.1 he
    refine inStep_bind (hexpr a r s t ha h hr) fun s₁ t₁ v h₁ _ => ?_
    refine inStep_bind (hexpr b r s₁ t₁ hb h₁ hr) fun s₂ t₂ w h₂ _ => ?_
    exact inStep_ofExcept h₂ fun x hx => S.atomic (Invariant.atomic_of_binary hx)
  | cond c yes no =>
    cases no with
    | none =>
      obtain ⟨hc, hyes⟩ := List.forall_mem_append.1 he
      refine inStep_bind (hexpr c r s t hc h hr) fun s₁ t₁ v h₁ _ => ?_
      split
      · exact inStep_statements hexpr h₁ hr hyes
      · exact inStep_pure h₁ (S.atomic trivial)
    | some no =>
      obtain ⟨hc, hblocks⟩ := List.forall_mem_append.1 he
      obtain ⟨hyes, hno⟩ := List.forall_mem_append.1 hblocks
      refine inStep_bind (hexpr c r s t hc h hr) fun s₁ t₁ v h₁ _ => ?_
      split
      · exact inStep_statements hexpr h₁ hr hyes
      · exact inStep_statements hexpr h₁ hr hno
  | call f args =>
    obtain ⟨hf, hargs⟩ := List.forall_mem_append.1 he
    refine inStep_bind (hexpr f r s t hf h hr) fun s₁ t₁ v h₁ hv => ?_
    refine inStep_bind (inStep_all hexpr h₁ hr hargs) fun s₂ t₂ vs h₂ hvs => ?_
    exact inStep_apply hexpr h₂ hv hvs
  | index c k =>
    obtain ⟨hc, hk⟩ := List.forall_mem_append.1 he
    refine inStep_bind (hexpr c r s t hc h hr) fun s₁ t₁ v h₁ hv => ?_
    refine inStep_bind (hexpr k r s₁ t₁ hk h₁ hr) fun s₂ t₂ w h₂ _ => ?_
    obtain ⟨hsame, hin⟩ := subscript_eq h₂ hv w
    refine inStep_store ?_
    rw [hsame]
    exact inStep_ofExcept h₂ hin

end Rules

theorem inStep_expr (S : Simulation) (depth : Nat) : ∀ e r s t, (∀ x ∈ e.names, S.name x) → S.stores s t →
    S.scope r → S.InStep (Eval.expr depth e r) (Eval.expr depth e r) s t S.value := by
  induction depth with
  | zero => intro e r s t _ _ _ output output'; exact .cutShort
  | succ n ih => intro e r s t he h hr; exact inStep_level ih h hr e he

end Simulation

end Eval

end MonkeyLang
