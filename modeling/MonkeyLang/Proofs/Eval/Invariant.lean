/-
What every evaluation keeps. An `Invariant` says which stores, values and scopes are good and how a
store may change, and that each operation on a store that an evaluation uses respects this. From there
on no rule of evaluation has to be looked at again: `keeps_expr` is about all expressions, and
`runIn_keeps` about all programs.
-/
import MonkeyLang.Eval.Expression
import MonkeyLang.Proofs.Store.WellFormed

namespace MonkeyLang

/-- Neither a reference nor an error. -/
def Value.Atomic : Value → Prop
  | .int _ | .bool _ | .null | .string _ | .builtin _ => True
  | _ => False

/-- Every pair is found under the key that belongs to it. -/
def Hash.Keyed (h : Hash) : Prop := ∀ e ∈ h.entries, e.2.key.key? = some e.1

theorem Hash.keyed_empty : Hash.empty.Keyed := by simp [Hash.Keyed, Hash.empty]

theorem Hash.Keyed.insert {h : Hash} (hh : h.Keyed) {k : HashKey} {p : HashPair}
    (hk : p.key.key? = some k) : (h.insert k p).Keyed := by
  intro e he
  rcases Hash.mem_insertEntry he with rfl | he
  · exact hk
  · exact hh e he

namespace Eval

structure Invariant where
  store : Store → Prop
  value : Store → Value → Prop
  scope : Store → FrameRef → Prop
  grows : Store → Store → Prop
  grows_refl : ∀ s, grows s s
  grows_trans : ∀ {s t u}, grows s t → grows t u → grows s u
  value_mono : ∀ {s t v}, grows s t → value s v → value t v
  scope_mono : ∀ {s t r}, grows s t → scope s r → scope t r
  atomic : ∀ {s v}, store s → v.Atomic → value s v
  element : ∀ {s r v}, store s → v ∈ s.elements r → value s v
  entry : ∀ {s r k p}, store s → (s.hash r).get? k = some p → value s p.value
  lookup : ∀ {s r name v}, store s → s.lookup r name = some v → value s v
  newArray : ∀ {s vs}, store s → (∀ v ∈ vs, value s v) →
    store (s.newArray vs).2 ∧ grows s (s.newArray vs).2 ∧ value (s.newArray vs).2 (.array (s.newArray vs).1)
  newHash : ∀ {s h}, store s → h.Holds (value s) → h.Keyed →
    store (s.newHash h).2 ∧ grows s (s.newHash h).2 ∧ value (s.newHash h).2 (.hash (s.newHash h).1)
  newClosure : ∀ {s c}, store s → scope s c.scope → store (s.newClosure c).2 ∧
    grows s (s.newClosure c).2 ∧ value (s.newClosure c).2 (.function (s.newClosure c).1)
  newFrame : ∀ {s r c}, store s → s.closure? r = some c → store (s.newFrame c.scope).2 ∧
    grows s (s.newFrame c.scope).2 ∧ scope (s.newFrame c.scope).2 (s.newFrame c.scope).1
  define : ∀ {s r name v}, store s → scope s r → value s v →
    store (s.define r name v) ∧ grows s (s.define r name v)
  append : ∀ {s r v}, store s → value s (.array r) → value s v →
    store (s.append r v) ∧ grows s (s.append r v)

namespace Invariant

variable {I : Invariant} {s t u : Store} {α β : Type}

/-- Good stores that can follow another one. -/
structure Follows (I : Invariant) (s t : Store) : Prop where
  store : I.store t
  grows : I.grows s t

theorem Follows.refl (hs : I.store s) : I.Follows s s := ⟨hs, I.grows_refl s⟩

theorem Follows.trans (h : I.Follows s t) (h' : I.Follows t u) : I.Follows s u :=
  ⟨h'.store, I.grows_trans h.grows h'.grows⟩

/-- What holds of an outcome: `Q` of a result, and of a value on its way back that it is good. -/
def Outcome (I : Invariant) (Q : Store → α → Prop) (t : Store) : Except Signal α → Prop
  | .ok a => Q t a
  | .error (.returned v) => I.value t v
  | .error (.failed _) => True

/-- However the evaluation ends on the store, it leaves a good store behind and an outcome with `Q`. -/
def Keeps (I : Invariant) (e : Eval α) (s : Store) (Q : Store → α → Prop) : Prop :=
  ∀ output r m, e.run ⟨s, output⟩ = some (r, m) → I.Follows s m.store ∧ I.Outcome Q m.store r

variable {Q : Store → α → Prop} {R : Store → β → Prop}

/-! ## Steps -/

theorem keeps_pure {a : α} (hs : I.store s) (h : Q s a) : I.Keeps (pure a) s Q := by
  intro output r m hr
  cases hr
  exact ⟨.refl hs, h⟩

theorem keeps_bind {e : Eval α} {f : α → Eval β} (he : I.Keeps e s Q)
    (hf : ∀ t a, I.Follows s t → Q t a → I.Keeps (f a) t R) : I.Keeps (e >>= f) s R := by
  intro output r m hr
  rw [run_bind] at hr
  split at hr
  · next a m' h =>
    obtain ⟨hst, ha⟩ := he output _ _ h
    obtain ⟨htu, hb⟩ := hf m'.store a hst ha m'.output r m hr
    exact ⟨hst.trans htu, hb⟩
  · next sig m' h =>
    obtain ⟨hst, ha⟩ := he output _ _ h
    cases hr
    cases sig with
    | returned v => exact ⟨hst, ha⟩
    | failed e => exact ⟨hst, trivial⟩
  · cases hr

theorem keeps_failed (hs : I.store s) (e : RuntimeError) : I.Keeps (signal (.failed e)) s Q := by
  intro output r m hr
  cases hr
  exact ⟨.refl hs, trivial⟩

theorem keeps_returned (hs : I.store s) {v : Value} (hv : I.value s v) :
    I.Keeps (signal (.returned v)) s Q := by
  intro output r m hr
  cases hr
  exact ⟨.refl hs, hv⟩

theorem keeps_ofExcept (hs : I.store s) {x : Except RuntimeError α} (h : ∀ a, x = .ok a → Q s a) :
    I.Keeps (ofExcept x) s Q := by
  cases x with
  | ok a => exact keeps_pure hs (h a rfl)
  | error e => exact keeps_failed hs e

theorem keeps_store (hs : I.store s) : I.Keeps Eval.store s fun t x => x = t := by
  intro output r m hr
  cases hr
  exact ⟨.refl hs, rfl⟩

theorem keeps_update {f : Store → α × Store} (h : I.Follows s (f s).2) (hq : Q (f s).2 (f s).1) :
    I.Keeps (update f) s Q := by
  intro output r m hr
  cases hr
  exact ⟨h, hq⟩

/-- A new place in the store, and the value that refers to it. -/
theorem keeps_make {f : Store → α × Store} {g : α → Value}
    (h : I.store (f s).2 ∧ I.grows s (f s).2 ∧ I.value (f s).2 (g (f s).1)) :
    I.Keeps (do let r ← update f; return g r) s I.value := by
  obtain ⟨ht, hg, hv⟩ := h
  have hnew : I.Keeps (update f) s fun t r => I.value t (g r) := keeps_update ⟨ht, hg⟩ hv
  exact keeps_bind hnew fun t r hst hr => keeps_pure hst.store hr

theorem keeps_define (hs : I.store s) {r : FrameRef} (hr : I.scope s r) (name : String) {v : Value}
    (hv : I.value s v) : I.Keeps (Eval.define r name v) s fun _ _ => True :=
  keeps_update ⟨(I.define hs hr hv).1, (I.define hs hr hv).2⟩ trivial

/-- A return ends at the call. -/
theorem keeps_call {e : Eval Value} (h : I.Keeps e s I.value) : I.Keeps (call e) s I.value := by
  intro output r m hr
  -- the outcome of the body, and what the call makes of it
  unfold run call at hr
  split at hr
  · next v m' he =>
    cases hr
    exact h output (.error (.returned v)) m he
  · exact h output r m hr

/-! ## Operators and subscripts -/

theorem atomic_of_unary {op : UnaryOp} {v w : Value} (h : op.apply v = .ok w) : w.Atomic := by
  unfold UnaryOp.apply at h
  split at h <;> cases h <;> trivial

theorem atomic_of_onIntegers {op : BinaryOp} {l r : Int64} {w : Value} (h : op.onIntegers l r = .ok w) :
    w.Atomic := by
  cases op with
  | div =>
    simp only [BinaryOp.onIntegers] at h
    split at h <;> cases h
    trivial
  | _ => cases h; trivial

theorem atomic_of_onOthers {op : BinaryOp} {l r w : Value} (h : op.onOthers l r = .ok w) : w.Atomic := by
  unfold BinaryOp.onOthers at h
  split at h
  · cases h; trivial
  · cases h; trivial
  · split at h <;> cases h

theorem atomic_of_binary {op : BinaryOp} {v w x : Value} (h : op.apply v w = .ok x) : x.Atomic := by
  unfold BinaryOp.apply at h
  split at h
  · exact atomic_of_onIntegers h
  · cases op <;> cases h
    trivial
  · exact atomic_of_onOthers h

theorem value_null (hs : I.store s) : I.value s .null := I.atomic hs trivial

/-- What can be read at a place that may be missing. -/
theorem value_getD (hs : I.store s) {x : Option Value} (h : ∀ v, x = some v → I.value s v) :
    I.value s (x.getD .null) := by
  cases x with
  | none => exact value_null hs
  | some v => exact h v rfl

theorem value_of_subscript (hs : I.store s) {v w x : Value} (h : s.subscript v w = .ok x) :
    I.value s x := by
  unfold Store.subscript at h
  split at h
  · next r =>
    split at h <;> cases h
    unfold Store.elementAt
    split
    · exact value_null hs
    · refine value_getD hs fun v hv => I.element hs (r := r) ?_
      exact Array.mem_of_getElem? hv
  · next r =>
    split at h <;> cases h
    refine value_getD hs fun v hv => ?_
    obtain ⟨p, hp, rfl⟩ := Option.map_eq_some_iff.1 hv
    exact I.entry hs hp
  · cases h

/-! ## Built-in functions -/

/-- A good end of a built-in function. -/
def Ends (I : Invariant) (s t : Store) (x : Except RuntimeError Value) : Prop :=
  I.Follows s t ∧ ∀ v, x = .ok v → I.value t v

theorem ends_lenOf (hs : I.store s) (args : List Value) : I.Ends s s (Builtin.lenOf s args) := by
  refine ⟨.refl hs, fun v h => ?_⟩
  unfold Builtin.lenOf at h
  split at h <;> cases h
  · exact I.atomic hs trivial
  · exact I.atomic hs trivial

theorem ends_headOf (hs : I.store s) (args : List Value) : I.Ends s s (Builtin.headOf s args) := by
  refine ⟨.refl hs, fun v h => ?_⟩
  unfold Builtin.headOf at h
  cases ha : Builtin.soleArray .head args with
  | error e => rw [ha] at h; cases h
  | ok r =>
    rw [ha] at h
    cases h
    refine value_getD hs fun v hv => I.element hs (r := r) ?_
    exact Array.mem_toList_iff.1 (List.mem_of_head? hv)

theorem ends_lastOf (hs : I.store s) (args : List Value) : I.Ends s s (Builtin.lastOf s args) := by
  refine ⟨.refl hs, fun v h => ?_⟩
  unfold Builtin.lastOf at h
  cases ha : Builtin.soleArray .last args with
  | error e => rw [ha] at h; cases h
  | ok r =>
    rw [ha] at h
    cases h
    exact value_getD hs fun v hv => I.element hs (r := r) (Array.mem_of_back? hv)

theorem ends_tailOf (hs : I.store s) (args : List Value) :
    I.Ends s (Builtin.tailOf s args).2 (Builtin.tailOf s args).1 := by
  unfold Builtin.tailOf
  split
  · exact ⟨.refl hs, fun v h => nomatch h⟩
  · next r _ =>
    split
    · refine ⟨.refl hs, fun v h => ?_⟩
      cases h
      exact value_null hs
    · next first rest he =>
      have hrest : ∀ v ∈ rest.toArray, I.value s v := fun v hv => by
        refine I.element hs (r := r) (Array.mem_toList_iff.1 ?_)
        rw [he]
        exact List.mem_cons_of_mem first (List.mem_toArray.1 hv)
      obtain ⟨ht, hg, hv⟩ := I.newArray hs hrest
      refine ⟨⟨ht, hg⟩, fun v h => ?_⟩
      cases h
      exact hv

theorem ends_pushTo (hs : I.store s) {args : List Value} (ha : ∀ v ∈ args, I.value s v) :
    I.Ends s (Builtin.pushTo s args).2 (Builtin.pushTo s args).1 := by
  unfold Builtin.pushTo
  split
  · next r v =>
    have hr : I.value s (.array r) := ha _ (by simp)
    obtain ⟨ht, hg⟩ := I.append hs hr (ha v (by simp))
    refine ⟨⟨ht, hg⟩, fun w h => ?_⟩
    cases h
    exact I.value_mono hg hr
  · exact ⟨.refl hs, fun v h => nomatch h⟩
  · exact ⟨.refl hs, fun v h => nomatch h⟩

theorem store_printAll (vs : List Value) (m : Machine) : (m.printAll vs).store = m.store := by
  unfold Machine.printAll
  induction vs generalizing m with
  | nil => rfl
  | cons v vs ih => exact ih (m.print v)

theorem ends_builtin (hs : I.store s) (b : Builtin) {args : List Value} (ha : ∀ v ∈ args, I.value s v)
    (output : String) : I.Ends s (b.apply args ⟨s, output⟩).2.store (b.apply args ⟨s, output⟩).1 := by
  cases b with
  | len => exact ends_lenOf hs args
  | head => exact ends_headOf hs args
  | tail => exact ends_tailOf hs args
  | last => exact ends_lastOf hs args
  | push => exact ends_pushTo hs ha
  | puts =>
    show I.Ends s (Machine.printAll ⟨s, output⟩ args).store (.ok .null)
    rw [store_printAll]
    refine ⟨.refl hs, fun v h => ?_⟩
    cases h
    exact value_null hs

theorem keeps_builtin (hs : I.store s) (b : Builtin) {args : List Value} (ha : ∀ v ∈ args, I.value s v) :
    I.Keeps (builtin b args) s I.value := by
  intro output r m hr
  have hend := ends_builtin hs b ha output
  unfold run builtin at hr
  rcases hb : b.apply args ⟨s, output⟩ with ⟨x, m'⟩
  rw [hb] at hr hend
  cases x with
  | ok v =>
    cases hr
    exact ⟨hend.1, hend.2 v rfl⟩
  | error e =>
    cases hr
    exact ⟨hend.1, trivial⟩

/-! ## Rules -/

section Rules

variable {expr : Expr → FrameRef → Eval Value} {r : FrameRef}
  (hexpr : ∀ e r s, I.store s → I.scope s r → I.Keeps (expr e r) s I.value)

include hexpr

theorem keeps_all (hs : I.store s) (hr : I.scope s r) (es : List Expr) :
    I.Keeps (all expr r es) s fun t vs => ∀ v ∈ vs, I.value t v := by
  induction es generalizing s with
  | nil => exact keeps_pure hs (by simp)
  | cons e es ih =>
    refine keeps_bind (hexpr e r s hs hr) fun t v hst hv => ?_
    refine keeps_bind (ih hst.store (I.scope_mono hst.grows hr)) fun u vs htu hvs => ?_
    refine keeps_pure htu.store fun w hw => ?_
    rcases List.mem_cons.1 hw with rfl | hw
    · exact I.value_mono htu.grows hv
    · exact hvs w hw

omit hexpr in
theorem keeps_keyOf (hs : I.store s) (v : Value) : I.Keeps (keyOf v) s fun _ k => v.key? = some k := by
  unfold keyOf
  split
  · next k hk => exact keeps_pure hs hk
  · exact keeps_failed hs _

theorem keeps_pairs (hs : I.store s) (hr : I.scope s r) (ps : List (Expr × Expr)) {h : Hash}
    (hh : h.Holds (I.value s)) (hk : h.Keyed) :
    I.Keeps (pairs expr r h ps) s fun t h => h.Holds (I.value t) ∧ h.Keyed := by
  induction ps generalizing s h with
  | nil => exact keeps_pure hs ⟨hh, hk⟩
  | cons p ps ih =>
    obtain ⟨k, v⟩ := p
    refine keeps_bind (hexpr k r s hs hr) fun t key hst hkey => ?_
    refine keeps_bind (keeps_keyOf hst.store key) fun u hashKey htu hkey' => ?_
    have hsu := hst.trans htu
    refine keeps_bind (hexpr v r u hsu.store (I.scope_mono hsu.grows hr)) fun w value huw hvalue => ?_
    have hsw := hsu.trans huw
    -- the hash is not in the store yet: its values have to stay good while the rest is evaluated
    refine ih hsw.store (I.scope_mono hsw.grows hr) ?_ (hk.insert hkey')
    refine (hh.mono fun _ => I.value_mono hsw.grows).insert ?_ hvalue
    exact I.value_mono (htu.trans huw).grows hkey

theorem keeps_statement (hs : I.store s) (hr : I.scope s r) (x : Stmt) :
    I.Keeps (statement expr r x) s I.value := by
  unfold statement
  split
  · next name e =>
    refine keeps_bind (hexpr e r s hs hr) fun t v hst hv => ?_
    refine keeps_bind (keeps_define hst.store (I.scope_mono hst.grows hr) name hv) fun u _ htu _ => ?_
    exact keeps_pure htu.store (I.value_mono htu.grows hv)
  · next e =>
    refine keeps_bind (hexpr e r s hs hr) fun t v hst hv => ?_
    exact keeps_returned hst.store hv
  · exact keeps_returned hs (value_null hs)
  · next e => exact hexpr e r s hs hr

theorem keeps_statementsAfter (hs : I.store s) (hr : I.scope s r) {v : Value} (hv : I.value s v)
    (xs : List Stmt) : I.Keeps (statementsAfter expr r v xs) s I.value := by
  induction xs generalizing s v with
  | nil => exact keeps_pure hs hv
  | cons x xs ih =>
    refine keeps_bind (keeps_statement hexpr hs hr x) fun t w hst hw => ?_
    exact ih hst.store (I.scope_mono hst.grows hr) hw

theorem keeps_statements (hs : I.store s) (hr : I.scope s r) (xs : List Stmt) :
    I.Keeps (statements expr r xs) s I.value :=
  keeps_statementsAfter hexpr hs hr (value_null hs) xs

omit hexpr in
theorem keeps_name (hs : I.store s) (r : FrameRef) (x : String) : I.Keeps (name r x) s I.value := by
  unfold name
  split
  · exact keeps_pure hs (I.atomic hs trivial)
  · refine keeps_bind (keeps_store hs) fun t _ hst ht => ?_
    subst ht
    split
    · next v hv => exact keeps_pure hst.store (I.lookup hst.store hv)
    · exact keeps_failed hst.store _

omit hexpr in
theorem keeps_bindParams (hs : I.store s) (hr : I.scope s r) (ps : List String) {vs : List Value}
    (hvs : ∀ v ∈ vs, I.value s v) : I.Keeps (bindParams r ps vs) s fun _ _ => True := by
  induction ps generalizing s vs with
  | nil => exact keeps_pure hs trivial
  | cons p ps ih =>
    cases vs with
    | nil => exact keeps_pure hs trivial
    | cons v vs =>
      refine keeps_bind (keeps_define hs hr p (hvs v (by simp))) fun t _ hst _ => ?_
      refine ih hst.store (I.scope_mono hst.grows hr) fun w hw => ?_
      exact I.value_mono hst.grows (hvs w (List.mem_cons_of_mem v hw))

theorem keeps_applyClosure (hs : I.store s) {x : ClosureRef} {c : Closure} (hc : s.closure? x = some c)
    {args : List Value} (ha : ∀ v ∈ args, I.value s v) : I.Keeps (applyClosure expr c args) s I.value := by
  unfold applyClosure
  split
  · obtain ⟨ht, hg, hr⟩ := I.newFrame hs hc
    have hnew : I.Keeps (update (·.newFrame c.scope)) s I.scope := keeps_update ⟨ht, hg⟩ hr
    refine keeps_bind hnew fun t r hst hr => ?_
    have hargs : ∀ v ∈ args, I.value t v := fun v hv => I.value_mono hst.grows (ha v hv)
    refine keeps_bind (keeps_bindParams hst.store hr c.params hargs) fun u _ htu _ => ?_
    exact keeps_call (keeps_statements hexpr htu.store (I.scope_mono htu.grows hr) c.body)
  · exact keeps_failed hs _

theorem keeps_apply (hs : I.store s) (f : Value) {args : List Value} (ha : ∀ v ∈ args, I.value s v) :
    I.Keeps (apply expr f args) s I.value := by
  unfold apply
  split
  · refine keeps_bind (keeps_store hs) fun t x hst hx => ?_
    subst hx
    split
    · next c hc => exact keeps_applyClosure hexpr hst.store hc fun v hv => I.value_mono hst.grows (ha v hv)
    · exact keeps_failed hst.store _
  · next b => exact keeps_builtin hs b ha
  · exact keeps_failed hs _

theorem keeps_level (hs : I.store s) (hr : I.scope s r) (e : Expr) :
    I.Keeps (level expr e r) s I.value := by
  cases e with
  | ident x => exact keeps_name hs r x
  | int n => exact keeps_pure hs (I.atomic hs trivial)
  | bool b => exact keeps_pure hs (I.atomic hs trivial)
  | string x => exact keeps_pure hs (I.atomic hs trivial)
  | array es =>
    refine keeps_bind (keeps_all hexpr hs hr es) fun t vs hst hvs => ?_
    exact keeps_make (I.newArray hst.store fun v hv => hvs v (List.mem_toArray.1 hv))
  | hash ps =>
    refine keeps_bind (keeps_pairs hexpr hs hr ps (Hash.holds_empty _) Hash.keyed_empty)
      fun t h hst hh => ?_
    exact keeps_make (I.newHash hst.store hh.1 hh.2)
  | function params body => exact keeps_make (I.newClosure (c := ⟨params, body, r⟩) hs hr)
  | unary op e =>
    refine keeps_bind (hexpr e r s hs hr) fun t v hst hv => ?_
    exact keeps_ofExcept hst.store fun w hw => I.atomic hst.store (atomic_of_unary hw)
  | binary op a b =>
    refine keeps_bind (hexpr a r s hs hr) fun t v hst hv => ?_
    refine keeps_bind (hexpr b r t hst.store (I.scope_mono hst.grows hr)) fun u w htu hw => ?_
    exact keeps_ofExcept htu.store fun x hx => I.atomic htu.store (atomic_of_binary hx)
  | cond c yes no =>
    refine keeps_bind (hexpr c r s hs hr) fun t v hst hv => ?_
    have hr' := I.scope_mono hst.grows hr
    split
    · exact keeps_statements hexpr hst.store hr' yes
    · split
      · next no => exact keeps_statements hexpr hst.store hr' no
      · exact keeps_pure hst.store (value_null hst.store)
  | call f args =>
    refine keeps_bind (hexpr f r s hs hr) fun t v hst hv => ?_
    refine keeps_bind (keeps_all hexpr hst.store (I.scope_mono hst.grows hr) args) fun u vs htu hvs => ?_
    exact keeps_apply hexpr htu.store v hvs
  | index c k =>
    refine keeps_bind (hexpr c r s hs hr) fun t v hst hv => ?_
    refine keeps_bind (hexpr k r t hst.store (I.scope_mono hst.grows hr)) fun u w htu hw => ?_
    refine keeps_bind (keeps_store htu.store) fun x y hux hy => ?_
    subst hy
    exact keeps_ofExcept hux.store fun z hz => value_of_subscript hux.store hz

end Rules

/-- Every evaluation of an expression, at any depth, leads from good stores and scopes to good stores
and values. -/
theorem keeps_expr (I : Invariant) (depth : Nat) :
    ∀ e r s, I.store s → I.scope s r → I.Keeps (Eval.expr depth e r) s I.value := by
  induction depth with
  | zero =>
    intro e r s hs hr output x m h
    cases h
  | succ n ih =>
    intro e r s hs hr
    exact keeps_level ih hs hr e

/-- So does every run of a program. Only an error that ends it may be a value that is not good. -/
theorem runIn_keeps (I : Invariant) {s : Store} {output : String} {depth : Nat} {r : FrameRef}
    {p : Program} {v : Value} {m : Machine} (hs : I.store s) (hr : I.scope s r)
    (h : (Machine.mk s output).runIn depth r p = some (v, m)) :
    I.Follows s m.store ∧ (I.value m.store v ∨ ∃ e, v = .error e) := by
  have hkeeps := keeps_statements (I.keeps_expr depth) hs hr p.statements
  unfold Machine.runIn at h
  split at h
  · next w m' hw =>
    cases h
    exact (hkeeps output _ _ hw).imp_right .inl
  · next w m' hw =>
    cases h
    exact (hkeeps output _ _ hw).imp_right .inl
  · next e m' hw =>
    cases h
    exact ⟨(hkeeps output _ _ hw).1, .inr ⟨e, rfl⟩⟩
  · cases h

end Invariant

end Eval

end MonkeyLang
