/-
Two stores that look the same from inside a set of cells (`Twin`): the cells of the set have the same
contents in both, and no step leads out of the set. Every operation that writes a cell of the set, the
same in both stores, keeps them twins and touches nothing outside (`Twin.write`), and what is read
through values of the set is the same in both.
-/
import MonkeyLang.Eval.Builtin
import MonkeyLang.Proofs.Store.Cells
import MonkeyLang.Proofs.Store.WellFormed

namespace MonkeyLang

/-- The value refers to no cell outside the set. -/
def Value.Within (P : Cell → Prop) (v : Value) : Prop := ∀ c, v.cell? = some c → P c

namespace Store

variable {P : Cell → Prop} {s t s' t' u : Store} {c d : Cell} {v w : Value}

/-- How many scopes, arrays, hashes and closures there are. -/
def sizes (s : Store) : Nat × Nat × Nat × Nat :=
  (s.frames.size, s.arrays.size, s.hashes.size, s.closures.size)

structure Twin (P : Cell → Prop) (s t : Store) : Prop where
  sizes : s.sizes = t.sizes
  same : ∀ c, P c → s.SameAt t c
  closed : ∀ c d, P c → s.Leads c d → P d
  /-- Cells that are yet to be made belong to the set. -/
  fresh : ∀ c, ¬ s.Has c → P c

/-- Nothing outside the set has changed. -/
def ChangesIn (P : Cell → Prop) (s t : Store) : Prop := ∀ c, ¬ P c → t.SameAt s c

theorem ChangesIn.refl (P : Cell → Prop) (s : Store) : s.ChangesIn P s := fun c _ => .refl s c

theorem ChangesIn.trans (h : s.ChangesIn P t) (h' : t.ChangesIn P u) : s.ChangesIn P u :=
  fun c hc => (h' c hc).trans (h c hc)

theorem Twin.frames (h : Twin P s t) : s.frames.size = t.frames.size := congrArg (·.1) h.sizes

theorem Twin.arrays (h : Twin P s t) : s.arrays.size = t.arrays.size := congrArg (·.2.1) h.sizes

theorem Twin.hashes (h : Twin P s t) : s.hashes.size = t.hashes.size := congrArg (·.2.2.1) h.sizes

theorem Twin.closures (h : Twin P s t) : s.closures.size = t.closures.size := congrArg (·.2.2.2) h.sizes

theorem sizes_eq_of_has_iff (h : ∀ c, s.Has c ↔ t.Has c) : s.sizes = t.sizes := by
  have heq : ∀ {m n : Nat}, (∀ i, i < m ↔ i < n) → m = n := fun {m n} h => by
    have h₁ := h m
    have h₂ := h n
    omega
  have hf := heq fun i => h (.frame ⟨i⟩)
  have ha := heq fun i => h (.array ⟨i⟩)
  have hh := heq fun i => h (.hash ⟨i⟩)
  have hc := heq fun i => h (.closure ⟨i⟩)
  simp only [Store.sizes, hf, ha, hh, hc]

theorem Twin.has_iff (h : Twin P s t) (c : Cell) : s.Has c ↔ t.Has c := by
  cases c <;> simp only [Has, h.frames, h.arrays, h.hashes, h.closures]

/-! ## Writing -/

/-- `t` is `s` but for one cell, which may be new. -/
structure Writes (c : Cell) (s t : Store) : Prop where
  sameAt : ∀ d, d ≠ c → t.SameAt s d
  has : ∀ d, s.Has d → t.Has d

theorem getElem?_push_of_ne {α : Type} {xs : Array α} {i : Nat} (h : i ≠ xs.size) (x : α) :
    (xs.push x)[i]? = xs[i]? := by
  rw [Array.getElem?_push, if_neg h]

theorem getElem?_modify_of_ne {α : Type} {xs : Array α} {i j : Nat} (h : i ≠ j) (f : α → α) :
    (xs.modify j f)[i]? = xs[i]? := by
  rw [Array.getElem?_modify, if_neg (Ne.symm h)]

theorem writes_newFrame (s : Store) (outer : FrameRef) :
    Writes (.frame ⟨s.frames.size⟩) s (s.newFrame outer).2 where
  sameAt d hd := by
    cases d with
    | frame r => exact getElem?_push_of_ne (fun h => hd (congrArg (Cell.frame ⟨·⟩) h)) _
    | _ => rfl
  has d hd := by
    cases d with
    | frame r => exact Nat.lt_of_lt_of_le hd (by simp [Store.newFrame])
    | _ => exact hd

theorem writes_newArray (s : Store) (vs : Array Value) :
    Writes (.array ⟨s.arrays.size⟩) s (s.newArray vs).2 where
  sameAt d hd := by
    cases d with
    | array r => exact getElem?_push_of_ne (fun h => hd (congrArg (Cell.array ⟨·⟩) h)) _
    | _ => rfl
  has d hd := by
    cases d with
    | array r => exact Nat.lt_of_lt_of_le hd (by simp [Store.newArray])
    | _ => exact hd

theorem writes_newHash (s : Store) (h : Hash) : Writes (.hash ⟨s.hashes.size⟩) s (s.newHash h).2 where
  sameAt d hd := by
    cases d with
    | hash r => exact getElem?_push_of_ne (fun h => hd (congrArg (Cell.hash ⟨·⟩) h)) _
    | _ => rfl
  has d hd := by
    cases d with
    | hash r => exact Nat.lt_of_lt_of_le hd (by simp [Store.newHash])
    | _ => exact hd

theorem writes_newClosure (s : Store) (x : Closure) :
    Writes (.closure ⟨s.closures.size⟩) s (s.newClosure x).2 where
  sameAt d hd := by
    cases d with
    | closure r => exact getElem?_push_of_ne (fun h => hd (congrArg (Cell.closure ⟨·⟩) h)) _
    | _ => rfl
  has d hd := by
    cases d with
    | closure r => exact Nat.lt_of_lt_of_le hd (by simp [Store.newClosure])
    | _ => exact hd

theorem writes_define (s : Store) (r : FrameRef) (name : String) (v : Value) :
    Writes (.frame r) s (s.define r name v) where
  sameAt d hd := by
    cases d with
    | frame q => exact getElem?_modify_of_ne (fun h => hd (congrArg (Cell.frame ⟨·⟩) h)) _
    | _ => rfl
  has d hd := by
    cases d with
    | frame q => exact Nat.lt_of_lt_of_le hd (by simp [Store.define])
    | _ => exact hd

theorem writes_append (s : Store) (r : ArrayRef) (v : Value) : Writes (.array r) s (s.append r v) where
  sameAt d hd := by
    cases d with
    | array q => exact getElem?_modify_of_ne (fun h => hd (congrArg (Cell.array ⟨·⟩) h)) _
    | _ => rfl
  has d hd := by
    cases d with
    | array q => exact Nat.lt_of_lt_of_le hd (by simp [Store.append])
    | _ => exact hd

/-- Twins that follow twins, with no change outside the set. -/
structure Twin.Moves (P : Cell → Prop) (s t s' t' : Store) : Prop where
  twin : Twin P s' t'
  left : s.ChangesIn P s'
  right : t.ChangesIn P t'

theorem Twin.Moves.refl (h : Twin P s t) : Twin.Moves P s t s t := ⟨h, .refl P s, .refl P t⟩

theorem Twin.Moves.trans {s₁ t₁ s₂ t₂ : Store} (h : Twin.Moves P s t s₁ t₁) (h' : Twin.Moves P s₁ t₁ s₂ t₂) :
    Twin.Moves P s t s₂ t₂ :=
  ⟨h'.twin, h.left.trans h'.left, h.right.trans h'.right⟩

/-- Both stores are written at one cell of the set, in the same way. -/
theorem Twin.write (h : Twin P s t) (hc : P c) (hs : Writes c s s') (ht : Writes c t t')
    (hsizes : s'.sizes = t'.sizes) (hsame : s'.SameAt t' c) (hleads : ∀ d, s'.Leads c d → P d) :
    Twin.Moves P s t s' t' := by
  refine ⟨⟨hsizes, fun d hd => ?_, fun d e hd hde => ?_, fun d hd => h.fresh d fun hd' => hd (hs.has d hd')⟩,
    fun d hd => hs.sameAt d ?_, fun d hd => ht.sameAt d ?_⟩
  · by_cases hdc : d = c
    · rw [hdc]; exact hsame
    · exact (hs.sameAt d hdc).trans ((h.same d hd).trans (ht.sameAt d hdc).symm)
  · by_cases hdc : d = c
    · rw [hdc] at hde; exact hleads e hde
    · exact h.closed d e hd (hde.of_sameAt (hs.sameAt d hdc))
  · rintro rfl; exact hd hc
  · rintro rfl; exact hd hc

/-- The new entries of two tables of one size. -/
theorem getElem?_push_size_eq {α : Type} {xs ys : Array α} (h : xs.size = ys.size) (x : α) :
    (xs.push x)[xs.size]? = (ys.push x)[xs.size]? := by
  rw [Array.getElem?_push_size, h, Array.getElem?_push_size]

theorem eq_of_getElem?_push_size {α : Type} {xs : Array α} {x y : α} (h : (xs.push x)[xs.size]? = some y) :
    y = x := by
  rw [Array.getElem?_push_size] at h
  exact (Option.some.inj h).symm

theorem Twin.newFrame (h : Twin P s t) {outer : FrameRef} (ho : P (.frame outer)) :
    (t.newFrame outer).1 = (s.newFrame outer).1 ∧ P (.frame (s.newFrame outer).1) ∧
      Twin.Moves P s t (s.newFrame outer).2 (t.newFrame outer).2 := by
  have hnew : P (.frame ⟨s.frames.size⟩) := h.fresh _ (Nat.lt_irrefl _)
  refine ⟨congrArg FrameRef.mk h.frames.symm, hnew, h.write hnew (writes_newFrame s outer) ?_ ?_ ?_ fun d hd => ?_⟩
  · rw [h.frames]; exact writes_newFrame t outer
  · simpa [Store.sizes, Store.newFrame] using h.sizes
  · exact getElem?_push_size_eq h.frames _
  · cases hd with
    | outer hf ho' => cases eq_of_getElem?_push_size hf; cases ho'; exact ho
    | binding hf hb _ => cases eq_of_getElem?_push_size hf; cases hb

theorem Twin.newArray (h : Twin P s t) {vs : Array Value} (hvs : ∀ v ∈ vs, v.Within P) :
    (t.newArray vs).1 = (s.newArray vs).1 ∧ (Value.array (s.newArray vs).1).Within P ∧
      Twin.Moves P s t (s.newArray vs).2 (t.newArray vs).2 := by
  have hnew : P (.array ⟨s.arrays.size⟩) := h.fresh _ (Nat.lt_irrefl _)
  refine ⟨congrArg ArrayRef.mk h.arrays.symm, fun c hc => by cases hc; exact hnew,
    h.write hnew (writes_newArray s vs) ?_ ?_ ?_ fun d hd => ?_⟩
  · rw [h.arrays]; exact writes_newArray t vs
  · simpa [Store.sizes, Store.newArray] using h.sizes
  · exact getElem?_push_size_eq h.arrays _
  · cases hd with
    | element ha hv hd => cases eq_of_getElem?_push_size ha; exact hvs _ hv d hd

theorem Twin.newHash (h : Twin P s t) {x : Hash} (hx : x.Holds (Value.Within P)) :
    (t.newHash x).1 = (s.newHash x).1 ∧ (Value.hash (s.newHash x).1).Within P ∧
      Twin.Moves P s t (s.newHash x).2 (t.newHash x).2 := by
  have hnew : P (.hash ⟨s.hashes.size⟩) := h.fresh _ (Nat.lt_irrefl _)
  refine ⟨congrArg HashRef.mk h.hashes.symm, fun c hc => by cases hc; exact hnew,
    h.write hnew (writes_newHash s x) ?_ ?_ ?_ fun d hd => ?_⟩
  · rw [h.hashes]; exact writes_newHash t x
  · simpa [Store.sizes, Store.newHash] using h.sizes
  · exact getElem?_push_size_eq h.hashes _
  · cases hd with
    | key hh he hd => cases eq_of_getElem?_push_size hh; exact (hx.entries _ he).1 d hd
    | value hh he hd => cases eq_of_getElem?_push_size hh; exact (hx.entries _ he).2 d hd

theorem Twin.newClosure (h : Twin P s t) {x : Closure} (hx : P (.frame x.scope)) :
    (t.newClosure x).1 = (s.newClosure x).1 ∧ (Value.function (s.newClosure x).1).Within P ∧
      Twin.Moves P s t (s.newClosure x).2 (t.newClosure x).2 := by
  have hnew : P (.closure ⟨s.closures.size⟩) := h.fresh _ (Nat.lt_irrefl _)
  refine ⟨congrArg ClosureRef.mk h.closures.symm, fun c hc => by cases hc; exact hnew,
    h.write hnew (writes_newClosure s x) ?_ ?_ ?_ fun d hd => ?_⟩
  · rw [h.closures]; exact writes_newClosure t x
  · simpa [Store.sizes, Store.newClosure] using h.sizes
  · exact getElem?_push_size_eq h.closures _
  · cases hd with
    | scope hy => cases eq_of_getElem?_push_size hy; exact hx

theorem Twin.define (h : Twin P s t) {r : FrameRef} (hr : P (.frame r)) (name : String) (hv : v.Within P) :
    Twin.Moves P s t (s.define r name v) (t.define r name v) := by
  refine h.write hr (writes_define s r name v) (writes_define t r name v) ?_ ?_ fun d hd => ?_
  · simpa [Store.sizes, Store.define] using h.sizes
  · have hsame : s.frames[r.index]? = t.frames[r.index]? := h.same _ hr
    simp only [SameAt, Store.define, Array.getElem?_modify, hsame]
  · cases hd with
    | outer hf ho =>
      obtain ⟨g, hg, rfl | ⟨-, rfl⟩⟩ := getElem?_modify_cases hf
      · exact h.closed _ _ hr (.outer hg ho)
      · exact h.closed _ _ hr (.outer hg ho)
    | binding hf hb hd =>
      obtain ⟨g, hg, rfl | ⟨-, rfl⟩⟩ := getElem?_modify_cases hf
      · exact h.closed _ _ hr (.binding hg hb hd)
      · rcases Bindings.mem_define hb with rfl | hb
        · exact hv d hd
        · exact h.closed _ _ hr (.binding hg hb hd)

theorem Twin.append (h : Twin P s t) {r : ArrayRef} (hr : P (.array r)) (hv : v.Within P) :
    Twin.Moves P s t (s.append r v) (t.append r v) := by
  refine h.write hr (writes_append s r v) (writes_append t r v) ?_ ?_ fun d hd => ?_
  · simpa [Store.sizes, Store.append] using h.sizes
  · have hsame : s.arrays[r.index]? = t.arrays[r.index]? := h.same _ hr
    simp only [SameAt, Store.append, Array.getElem?_modify, hsame]
  · cases hd with
    | element ha hw hd =>
      obtain ⟨b, hb, rfl | ⟨-, rfl⟩⟩ := getElem?_modify_cases ha
      · exact h.closed _ _ hr (.element hb hw hd)
      · rcases Array.mem_push.1 hw with hw | rfl
        · exact h.closed _ _ hr (.element hb hw hd)
        · exact hv d hd

/-! ## Reading -/

theorem Twin.elements (h : Twin P s t) {r : ArrayRef} (hr : P (.array r)) :
    t.elements r = s.elements r ∧ ∀ v ∈ s.elements r, v.Within P := by
  have hsame : s.arrays[r.index]? = t.arrays[r.index]? := h.same _ hr
  refine ⟨by rw [Store.elements, Store.elements, hsame], fun v hv d hd => ?_⟩
  unfold Store.elements at hv
  cases ha : s.arrays[r.index]? with
  | none => rw [ha] at hv; simp at hv
  | some a => rw [ha] at hv; exact h.closed _ _ hr (.element ha hv hd)

theorem Twin.hash (h : Twin P s t) {r : HashRef} (hr : P (.hash r)) :
    t.hash r = s.hash r ∧ ∀ e ∈ (s.hash r).entries, e.2.key.Within P ∧ e.2.value.Within P := by
  have hsame : s.hashes[r.index]? = t.hashes[r.index]? := h.same _ hr
  refine ⟨by rw [Store.hash, Store.hash, hsame], fun e he => ?_⟩
  unfold Store.hash at he
  cases hh : s.hashes[r.index]? with
  | none => rw [hh] at he; simp [Hash.empty] at he
  | some x =>
    rw [hh] at he
    exact ⟨fun d hd => h.closed _ _ hr (.key hh he hd), fun d hd => h.closed _ _ hr (.value hh he hd)⟩

theorem Twin.closure? (h : Twin P s t) {r : ClosureRef} (hr : P (.closure r)) :
    t.closure? r = s.closure? r ∧ ∀ x, s.closure? r = some x → P (.frame x.scope) :=
  ⟨(h.same _ hr).symm, fun _ hx => h.closed _ _ hr (.scope hx)⟩

theorem Twin.frame? (h : Twin P s t) {r : FrameRef} (hr : P (.frame r)) :
    t.frame? r = s.frame? r ∧ ∀ f, s.frame? r = some f →
      (∀ b ∈ f.bindings, b.2.Within P) ∧ ∀ o, f.outer = some o → P (.frame o) :=
  ⟨(h.same _ hr).symm, fun _ hf =>
    ⟨fun _ hb _ hd => h.closed _ _ hr (.binding hf hb hd), fun _ ho => h.closed _ _ hr (.outer hf ho)⟩⟩

theorem Twin.locals (h : Twin P s t) {r : FrameRef} (hr : P (.frame r)) (name : String) :
    (t.locals r).get? name = (s.locals r).get? name ∧ ∀ v, (s.locals r).get? name = some v → v.Within P := by
  obtain ⟨hsame, hin⟩ := h.frame? hr
  refine ⟨by rw [Store.locals, Store.locals, hsame], fun v hv => ?_⟩
  unfold Store.locals at hv
  cases hf : s.frame? r with
  | none => rw [hf] at hv; cases hv
  | some f => rw [hf] at hv; exact (hin f hf).1 _ (Bindings.mem_of_get? hv)

theorem Twin.lookupWithin (h : Twin P s t) (name : String) (n : Nat) {r : FrameRef} (hr : P (.frame r)) :
    t.lookupWithin name n r = s.lookupWithin name n r ∧
      ∀ v, s.lookupWithin name n r = some v → v.Within P := by
  induction n generalizing r with
  | zero => exact h.locals hr name
  | succ n ih =>
    obtain ⟨hlocal, hin⟩ := h.locals hr name
    obtain ⟨hframe, houter⟩ := h.frame? hr
    simp only [Store.lookupWithin, hlocal, hframe]
    cases hv : (s.locals r).get? name with
    | some v => exact ⟨rfl, fun w hw => by cases hw; exact hin _ hv⟩
    | none =>
      cases ho : (s.frame? r).bind Frame.outer with
      | none => exact ⟨rfl, fun v hv => by cases hv⟩
      | some o =>
        obtain ⟨f, hf, hfo⟩ := Option.bind_eq_some_iff.1 ho
        exact ih ((houter f hf).2 o hfo)

theorem Twin.lookup (h : Twin P s t) (name : String) {r : FrameRef} (hr : P (.frame r)) :
    t.lookup r name = s.lookup r name ∧ ∀ v, s.lookup r name = some v → v.Within P := by
  rw [Store.lookup, Store.lookup, ← h.frames]
  exact h.lookupWithin name _ hr

end Store

end MonkeyLang
