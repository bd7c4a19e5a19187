/-
What scopes hold, told from their history. Starting from the global scope alone, scopes are made inside
scopes and names are bound in them, in any order (`History`). A name then stands, in a scope, for the value
last bound to it in the nearest scope outward that ever bound it, a binding shows only where no nearer scope
hides it, and a scope lists its own names by their bytes (`scopes_recall_history`).
-/
import MonkeyLang.Proofs.Store.WellFormed
import MonkeyLang.Proofs.Text.Bytes

namespace MonkeyLang

/-! ## Bindings in order -/

namespace Bindings

def Sorted (b : Bindings) : Prop := b.Pairwise fun p q => p.1 < q.1

theorem Sorted.define {b : Bindings} (hb : b.Sorted) (name : String) (v : Value) : (b.define name v).Sorted := by
  fun_induction Bindings.define name v b with
  | case1 => exact List.pairwise_singleton _ _
  | case2 w rest =>
    -- the name keeps its place
    rw [Sorted, List.pairwise_cons] at hb ⊢
    exact hb
  | case3 n w rest hne hlt =>
    refine List.pairwise_cons.2 ⟨fun p hp => ?_, hb⟩
    rcases List.mem_cons.1 hp with rfl | hp
    · exact hlt
    · exact String.lt_trans hlt (List.rel_of_pairwise_cons hb hp)
  | case4 n w rest hne hge ih =>
    rw [Sorted, List.pairwise_cons] at hb
    refine List.pairwise_cons.2 ⟨fun p hp => ?_, ih hb.2⟩
    rcases mem_define hp with rfl | hp
    · grind
    · exact hb.1 p hp

/-- Each name stands once in the list, so that looking it up finds it. -/
theorem Sorted.mem_iff {b : Bindings} (hb : b.Sorted) {name : String} {v : Value} :
    (name, v) ∈ b ↔ b.get? name = some v := by
  refine ⟨fun hm => ?_, mem_of_get?⟩
  induction b with
  | nil => cases hm
  | cons p rest ih =>
    obtain ⟨n, w⟩ := p
    rcases List.mem_cons.1 hm with heq | hm
    · cases heq
      exact if_pos rfl
    · have hlt : n < name := List.rel_of_pairwise_cons hb hm
      have hne : name ≠ n := fun heq => String.lt_irrefl n (heq ▸ hlt)
      rw [Bindings.get?, if_neg hne]
      exact ih (List.Pairwise.of_cons hb) hm

end Bindings

/-! ## Histories -/

/-- What was done to the scopes, up to the last step, when there are `n` of them. The global scope was there
at the start; the others are numbered in the order they were made. -/
inductive History : Nat → Type where
  | start : History 1
  | child {n : Nat} (past : History n) (outer : FrameRef) (h : outer.index < n) : History (n + 1)
  | define {n : Nat} (past : History n) (scope : FrameRef) (h : scope.index < n) (name : String) (v : Value) :
    History n

namespace History

variable {n : Nat}

/-- The store that the steps lead to. -/
def store : {n : Nat} → History n → Store
  | _, start => .initial
  | _, child past outer _ => (past.store.newFrame outer).2
  | _, define past scope _ name v => past.store.define scope name v

/-- The value that was last bound to a name in that very scope. -/
def latest : {n : Nat} → History n → FrameRef → String → Option Value
  | _, start, _, _ => none
  | _, child past _ _, r, x => past.latest r x
  | _, define past scope _ name v, r, x => if r = scope ∧ x = name then some v else past.latest r x

/-- The scope that a scope was made in. -/
def outer? : {n : Nat} → History n → FrameRef → Option FrameRef
  | _, start, _ => none
  | n + 1, child past outer _, r => if r.index = n then some outer else past.outer? r
  | _, define past _ _ _ _, r => past.outer? r

/-- The scope, the one it was made in, and so on up to the global scope. -/
inductive Lineage (h : History n) : FrameRef → List FrameRef → Prop where
  | global : Lineage h Store.global [Store.global]
  | inside {r o : FrameRef} {rs : List FrameRef} (ho : h.outer? r = some o) (hrs : Lineage h o rs) :
    Lineage h r (r :: rs)

/-- A binding of the name in the scope `q` shows in `q` itself, and further inside as long as no scope on
the way ever bound the name. -/
inductive Shows (h : History n) (q : FrameRef) (name : String) : FrameRef → Prop where
  | here : Shows h q name q
  | through {r o : FrameRef} (ho : h.outer? r = some o) (hr : h.latest r name = none) (hq : Shows h q name o) :
    Shows h q name r

/-! ## One step after the other -/

theorem size_store (h : History n) : h.store.frames.size = n := by
  induction h with
  | start => rfl
  | child past outer ho ih => simp [store, Store.newFrame, ih]
  | define past scope hs name v ih => simp [store, Store.define, ih]

theorem isSome_frame? (h : History n) {r : FrameRef} (hr : r.index < n) : (h.store.frame? r).isSome := by
  rw [Store.frame?, Array.getElem?_eq_getElem (by rw [size_store]; exact hr)]
  rfl

theorem bind_outer_store (h : History n) (r : FrameRef) : (h.store.frame? r).bind Frame.outer = h.outer? r := by
  induction h with
  | start =>
    obtain ⟨_ | i⟩ := r <;> rfl
  | child past outer ho ih =>
    rw [store, Store.frame?_newFrame_eq, size_store, outer?]
    split
    · rfl
    · exact ih
  | define past scope hs name v ih =>
    have houter := Store.map_outer_define past.store scope r name v
    rw [outer?, ← ih, store]
    simpa only [Option.bind_map, Function.id_comp] using congrArg (Option.bind · id) houter

theorem get?_locals_store (h : History n) (r : FrameRef) (x : String) :
    (h.store.locals r).get? x = h.latest r x := by
  induction h with
  | start =>
    obtain ⟨_ | i⟩ := r <;> rfl
  | child past outer ho ih =>
    rw [latest, ← ih, Store.locals, Store.locals, store, Store.frame?_newFrame_eq]
    split
    · next hr =>
      -- the new scope binds nothing, and was not there before
      rw [Store.frame?, hr, Array.getElem?_size]
      rfl
    · rfl
  | define past scope hs name v ih =>
    rw [store, Store.get?_locals_define, latest, ih]
    simp only [past.isSome_frame? hs, true_and]

theorem sorted_locals (h : History n) (r : FrameRef) : (h.store.locals r).Sorted := by
  induction h with
  | start =>
    obtain ⟨_ | i⟩ := r <;> exact List.Pairwise.nil
  | child past outer ho ih =>
    rw [Store.locals, store, Store.frame?_newFrame_eq]
    split
    · exact List.Pairwise.nil
    · exact ih
  | define past scope hs name v ih =>
    by_cases hr : r = scope
    · subst hr
      rw [store, Store.locals_define (by rw [size_store]; exact hs)]
      exact ih.define name v
    · rw [Store.locals, store, Store.frame?_define_of_ne hr]
      exact ih

/-! ## The way outward -/

variable {h : History n} {q r : FrameRef} {rs : List FrameRef}

theorem index_lt_of_outer? {o : FrameRef} (ho : h.outer? r = some o) : o.index < r.index := by
  induction h with
  | start => cases ho
  | child past outer houter ih =>
    rw [outer?] at ho
    split at ho
    · next hr =>
      cases ho
      omega
    · exact ih ho
  | define past scope hs name v ih => exact ih ho

theorem exists_outer? (h : History n) (hpos : 0 < r.index) (hr : r.index < n) : ∃ o, h.outer? r = some o := by
  induction h with
  | start => omega
  | child past outer houter ih =>
    rw [outer?]
    split
    · exact ⟨outer, rfl⟩
    · exact ih (by omega)
  | define past scope hs name v ih => exact ih hr

theorem outer?_global (h : History n) : h.outer? Store.global = none := by
  cases ho : h.outer? Store.global with
  | none => rfl
  | some o => exact absurd (index_lt_of_outer? ho) (Nat.not_lt_zero _)

theorem exists_lineage (h : History n) (hr : r.index < n) : ∃ rs, h.Lineage r rs := by
  -- by the age of the scope: the one around it is older
  obtain ⟨i⟩ := r
  induction i using Nat.strongRecOn with
  | ind i ih =>
    rcases Nat.eq_zero_or_pos i with rfl | hpos
    · exact ⟨_, .global⟩
    · obtain ⟨o, ho⟩ := h.exists_outer? (r := ⟨i⟩) hpos hr
      have hlt : o.index < i := index_lt_of_outer? ho
      obtain ⟨rs, hrs⟩ := ih o.index hlt (Nat.lt_trans hlt hr)
      exact ⟨_, .inside ho hrs⟩

theorem Lineage.length_le (hrs : h.Lineage r rs) : rs.length ≤ r.index + 1 := by
  induction hrs with
  | global => exact Nat.le_refl _
  | inside ho _ ih =>
    have hlt := index_lt_of_outer? ho
    rw [List.length_cons]
    omega

theorem Lineage.define (hrs : h.Lineage r rs) (hq : q.index < n) (name : String) (v : Value) :
    (h.define q hq name v).Lineage r rs := by
  induction hrs with
  | global => exact .global
  | inside ho _ ih => exact .inside ho ih

/-! ## Looking up -/

theorem Lineage.lookupWithin_eq (hrs : h.Lineage r rs) (x : String) {m : Nat} (hm : rs.length ≤ m + 1) :
    h.store.lookupWithin x m r = rs.findSome? (h.latest · x) := by
  induction hrs generalizing m with
  | global =>
    rw [List.findSome?_singleton, ← get?_locals_store]
    cases m with
    | zero => rfl
    | succ m =>
      rw [Store.lookupWithin, bind_outer_store, outer?_global]
      cases (h.store.locals Store.global).get? x <;> rfl
  | @inside r o rs ho hrs ih =>
    -- a list of scopes is never empty, so there is a step left for the scope around
    obtain ⟨m, rfl⟩ : ∃ k, m = k + 1 := Nat.exists_eq_succ_of_ne_zero fun hm0 => by
      cases hrs <;> simp [hm0] at hm
    rw [List.findSome?_cons, ← get?_locals_store, Store.lookupWithin, bind_outer_store, ho]
    cases (h.store.locals r).get? x with
    | some v => rfl
    | none => exact ih (by simpa using hm)

theorem Lineage.lookup_eq (hrs : h.Lineage r rs) (hr : r.index < n) (x : String) :
    h.store.lookup r x = rs.findSome? (h.latest · x) := by
  have hlen := hrs.length_le
  exact hrs.lookupWithin_eq x (by rw [size_store]; omega)

/-! ## Binding a name -/

section

variable {name x : String} {v : Value} {hq : q.index < n}

theorem Lineage.exists_cons (hrs : h.Lineage r rs) : ∃ tail, rs = r :: tail := by
  cases hrs <;> exact ⟨_, rfl⟩

/-- A new binding is found from wherever it shows. -/
theorem Shows.findSome?_define (hs : h.Shows q name r) (hrs : h.Lineage r rs) :
    rs.findSome? ((h.define q hq name v).latest · name) = some v := by
  induction hs generalizing rs with
  | here =>
    obtain ⟨tail, rfl⟩ := hrs.exists_cons
    rw [List.findSome?_cons, latest, if_pos ⟨rfl, rfl⟩]
  | @through r o ho hr _ ih =>
    cases hrs with
    | global => rw [outer?_global] at ho; cases ho
    | inside ho' hrs =>
      obtain rfl : o = _ := Option.some.inj (ho.symm.trans ho')
      rw [List.findSome?_cons, latest]
      by_cases hrq : r = q
      · rw [if_pos ⟨hrq, rfl⟩]
      · rw [if_neg fun hr' => hrq hr'.1, hr]
        exact ih hrs

theorem latest_define_of_not_shows (hx : ¬ (x = name ∧ h.Shows q name r)) :
    (h.define q hq name v).latest r x = h.latest r x := by
  refine if_neg ?_
  rintro ⟨rfl, rfl⟩
  exact hx ⟨rfl, .here⟩

/-- Elsewhere everything is found that was found before. -/
theorem Lineage.findSome?_define (hrs : h.Lineage r rs) (hx : ¬ (x = name ∧ h.Shows q name r)) :
    rs.findSome? ((h.define q hq name v).latest · x) = rs.findSome? (h.latest · x) := by
  induction hrs with
  | global => rw [List.findSome?_singleton, List.findSome?_singleton, latest_define_of_not_shows hx]
  | @inside r o rs ho _ ih =>
    rw [List.findSome?_cons, List.findSome?_cons, latest_define_of_not_shows hx]
    cases hr : h.latest r x with
    | some w => rfl
    | none =>
      refine ih ?_
      rintro ⟨rfl, hs⟩
      exact hx ⟨rfl, .through ho hr hs⟩

end

/-- For every scope of every history: a scope made inside it gets the next number. A name has in it the value
last bound to the name in the first scope outward, itself included, that ever bound it. Binding a name in some
scope gives the name that value where the binding shows, and changes no other name and no other scope. The scope
lists the names that were ever bound in it, with their last values, in the strict order of their bytes. -/
theorem scopes_recall_history (h : History n) {r : FrameRef} (hr : r.index < n) :
    (h.store.newFrame r).1 = ⟨n⟩ ∧
    (∃ rs, h.Lineage r rs ∧ ∀ x, h.store.lookup r x = rs.findSome? (h.latest · x)) ∧
    (∀ (q : FrameRef) (hq : q.index < n) (name : String) (v : Value) (x : String),
      (x = name ∧ h.Shows q name r → (h.define q hq name v).store.lookup r x = some v) ∧
      (¬ (x = name ∧ h.Shows q name r) → (h.define q hq name v).store.lookup r x = h.store.lookup r x)) ∧
    (∀ x v, (x, v) ∈ h.store.locals r ↔ h.latest r x = some v) ∧
    (h.store.locals r).Pairwise fun a b => Text.bytesOf a.1 < Text.bytesOf b.1 := by
  obtain ⟨rs, hrs⟩ := h.exists_lineage hr
  refine ⟨congrArg FrameRef.mk h.size_store, ⟨rs, hrs, hrs.lookup_eq hr⟩, fun q hq name v x => ⟨?_, fun hx => ?_⟩,
    fun x v => ?_, (h.sorted_locals r).imp Text.bytesOf_lt⟩
  · rintro ⟨rfl, hs⟩
    rw [(hrs.define hq x v).lookup_eq hr]
    exact hs.findSome?_define hrs
  · rw [(hrs.define hq name v).lookup_eq hr, hrs.lookup_eq hr]
    exact hrs.findSome?_define hx
  · rw [(h.sorted_locals r).mem_iff, get?_locals_store]

/-- Three scopes, one inside the other. The middle one binds a name of the global scope, and then again; the
global scope binds another name when the inner scopes are there. -/
def nested : History 3 :=
  start |>.define ⟨0⟩ (by decide) "x" (.int 1) |>.child ⟨0⟩ (by decide) |>.child ⟨1⟩ (by decide)
    |>.define ⟨1⟩ (by decide) "x" (.int 2) |>.define ⟨0⟩ (by decide) "late" (.int 3)
    |>.define ⟨1⟩ (by decide) "x" (.int 4)

theorem scopes_recall_history_nested : nested.store.lookup ⟨2⟩ "x" = some (.int 4) ∧
    nested.store.lookup ⟨2⟩ "late" = some (.int 3) ∧
    (nested.define ⟨0⟩ (by decide) "x" (.int 5)).store.lookup ⟨2⟩ "x" = some (.int 4) := by
  obtain ⟨-, ⟨rs, hrs, hlookup⟩, hdefine, -⟩ := scopes_recall_history nested (r := ⟨2⟩) (by decide)
  obtain rfl : rs = [⟨2⟩, ⟨1⟩, ⟨0⟩] := by
    obtain _ | ⟨ho, hrs⟩ := hrs
    obtain rfl := Option.some.inj ho
    obtain _ | ⟨ho, hrs⟩ := hrs
    obtain rfl := Option.some.inj ho
    obtain _ | ⟨ho, -⟩ := hrs
    · rfl
    · cases ho
  have hhidden : ¬ nested.Shows ⟨0⟩ "x" ⟨2⟩ := by
    rintro (_ | ⟨ho, -, hs⟩)
    obtain rfl := Option.some.inj ho
    obtain _ | ⟨-, hr, -⟩ := hs
    cases hr
  have hx : nested.store.lookup ⟨2⟩ "x" = some (.int 4) := hlookup "x"
  have hkept := (hdefine ⟨0⟩ (by decide) "x" (.int 5) "x").2 fun hs => hhidden hs.2
  exact ⟨hx, hlookup "late", hkept.trans hx⟩

end History

end MonkeyLang
