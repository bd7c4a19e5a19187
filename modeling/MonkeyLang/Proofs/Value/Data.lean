/-
Data in a store: numbers, truth values, and arrays and hashes of data, with sharing but without cycles
(`IsData`). Each of them is spelled out by an expression (`Shows`), which tells all there is to tell of it:
the layout of the value is that of the expression (`outline_eq`), and values that the same expression
spells out are equal by what they hold (`alike_of_shows`).
-/
import MonkeyLang.Proofs.Program.Data
import MonkeyLang.Proofs.Value.Bisimulation
import Mathlib.Logic.Relation

namespace MonkeyLang

/-! ## Scalars -/

/-- An integer that can be spelled out, or a truth value. -/
inductive Value.IsScalar : Value → Prop where
  | int {n : Int64} (h : n ≠ Int64.minValue) : IsScalar (.int n)
  | bool (b : Bool) : IsScalar (.bool b)

/-- A negative number is spelled out as the opposite of a positive one. -/
inductive Value.SpelledBy : Value → Expr → Prop where
  | int {n : Int64} (h : 0 ≤ n) : SpelledBy (.int n) (.int n)
  | negative {n : Int64} (h : 0 < n) : SpelledBy (.int (-n)) (.unary .neg (.int n))
  | bool (b : Bool) : SpelledBy (.bool b) (.bool b)

theorem Value.IsScalar.exists_spelledBy {v : Value} (h : v.IsScalar) : ∃ e, v.SpelledBy e := by
  cases h with
  | @int n h =>
    by_cases hn : 0 ≤ n
    · exact ⟨_, .int hn⟩
    · have hlt : n.toInt < 0 := by
        rw [Int64.le_iff_toInt_le] at hn
        simpa using hn
      have hpos : 0 < -n := by
        rw [Int64.lt_iff_toInt_lt, toInt_neg_of_ne_minValue h, Int64.toInt_zero]
        omega
      have hspell := SpelledBy.negative hpos
      rw [Int64.neg_neg] at hspell
      exact ⟨_, hspell⟩
  | bool b => exact ⟨_, .bool b⟩

theorem Value.SpelledBy.isData {v : Value} {e : Expr} (h : v.SpelledBy e) : e.IsData := by
  cases h with
  | int h => exact .int h
  | negative h => exact .negative h
  | bool b => exact .bool b

theorem Value.SpelledBy.unique {v w : Value} {e : Expr} (h : v.SpelledBy e) (h' : w.SpelledBy e) : v = w := by
  cases h <;> cases h' <;> rfl

/-! ## Lists -/

section Lists

variable {α β γ : Type} {R : α → β → Prop} {S : γ → β → Prop} {xs : List α} {ys : List β} {zs : List γ}

theorem exists_forall₂ (h : ∀ x ∈ xs, ∃ y, R x y) : ∃ ys, List.Forall₂ R xs ys := by
  induction xs with
  | nil => exact ⟨[], .nil⟩
  | cons x xs ih =>
    obtain ⟨y, hy⟩ := h x (by simp)
    obtain ⟨ys, hys⟩ := ih fun z hz => h z (List.mem_cons_of_mem x hz)
    exact ⟨y :: ys, .cons hy hys⟩

theorem exists_of_mem_forall₂ (h : List.Forall₂ R xs ys) {x : α} (hx : x ∈ xs) : ∃ y ∈ ys, R x y := by
  induction h with
  | nil => cases hx
  | cons hxy _ ih =>
    rcases List.mem_cons.1 hx with rfl | hx
    · exact ⟨_, by simp, hxy⟩
    · exact (ih hx).imp fun _ hy => ⟨List.mem_cons_of_mem _ hy.1, hy.2⟩

/-- What holds of the right member of each pair holds of all members of the right list. -/
theorem forall_mem_of_zip {P : β → Prop} (hlen : xs.length = ys.length) (h : ∀ p ∈ xs.zip ys, P p.2) :
    ∀ y ∈ ys, P y := by
  intro y hy
  have hys : List.Forall₂ (fun _ y => P y) xs ys := List.forall₂_iff_zip.2 ⟨hlen, fun hp => h _ hp⟩
  obtain ⟨x, -, hx⟩ := exists_of_mem_forall₂ hys.flip hy
  exact hx

theorem forall₂_of_common (h : List.Forall₂ R xs ys) (h' : List.Forall₂ S zs ys) :
    List.Forall₂ (fun x z => ∃ y, R x y ∧ S z y) xs zs := by
  induction h generalizing zs with
  | nil => cases h'; exact .nil
  | cons hx _ ih =>
    cases h' with
    | cons hz hrest => exact .cons ⟨_, hx, hz⟩ (ih hrest)

theorem map_eq_map_of_forall₂ {f : α → γ} {g : β → γ} (h : List.Forall₂ (fun x y => f x = g y) xs ys) :
    xs.map f = ys.map g := by
  rw [← List.forall₂_eq_eq_eq, List.forall₂_map_left_iff, List.forall₂_map_right_iff]
  exact h

end Lists

namespace Store

variable {s t : Store} {v w : Value} {e : Expr}

/-! ## Data -/

/-- Data without cycles. A hash has scalars for its keys, each stored under its own hash key. -/
inductive IsData (s : Store) : Value → Prop where
  | scalar {v : Value} (h : v.IsScalar) : IsData s v
  | array {r : ArrayRef} (h : ∀ x ∈ (s.elements r).toList, IsData s x) : IsData s (.array r)
  | hash {r : HashRef} (hk : ∀ e ∈ (s.hash r).entries, e.2.key.IsScalar) (hkeyed : (s.hash r).Keyed)
    (hv : ∀ e ∈ (s.hash r).entries, IsData s e.2.value) : IsData s (.hash r)

/-- A key of a hash and an expression that spells it out. -/
def KeySpelledBy (e : HashKey × HashPair) (q : Expr × Expr) : Prop :=
  e.2.key.SpelledBy q.1 ∧ e.2.key.key? = some e.1

/-- An expression that spells out a value of the store. -/
inductive Shows (s : Store) : Value → Expr → Prop where
  | scalar {v : Value} {e : Expr} (h : v.SpelledBy e) : Shows s v e
  | array {r : ArrayRef} {es : List Expr} (hr : r.index < s.arrays.size)
    (hlen : (s.elements r).toList.length = es.length)
    (h : ∀ p ∈ (s.elements r).toList.zip es, Shows s p.1 p.2) : Shows s (.array r) (.array es)
  | hash {r : HashRef} {ps : List (Expr × Expr)} (hr : r.index < s.hashes.size)
    (hn : ((s.hash r).entries.map Prod.fst).Nodup) (hk : List.Forall₂ KeySpelledBy (s.hash r).entries ps)
    (hv : ∀ p ∈ (s.hash r).entries.zip ps, Shows s p.1.2.value p.2.2) : Shows s (.hash r) (.hash ps)

theorem shows_array {r : ArrayRef} {es : List Expr} (hr : r.index < s.arrays.size)
    (h : List.Forall₂ s.Shows (s.elements r).toList es) : s.Shows (.array r) (.array es) :=
  .array hr h.length_eq fun _ hp => (List.forall₂_iff_zip.1 h).2 hp

/-- A hash entry and the pair of expressions that spells it out. -/
def ShowsEntry (s : Store) (e : HashKey × HashPair) (q : Expr × Expr) : Prop :=
  KeySpelledBy e q ∧ s.Shows e.2.value q.2

theorem shows_hash {r : HashRef} {ps : List (Expr × Expr)} (hr : r.index < s.hashes.size)
    (hn : ((s.hash r).entries.map Prod.fst).Nodup) (h : List.Forall₂ s.ShowsEntry (s.hash r).entries ps) :
    s.Shows (.hash r) (.hash ps) :=
  .hash hr hn (h.imp fun _ _ hp => hp.1) fun _ hp => ((List.forall₂_iff_zip.1 h).2 hp).2

/-- Data of a well-formed store can be spelled out. -/
theorem IsData.exists_shows (hs : s.WF) (hd : s.IsData v) (hv : s.HasValue v) : ∃ e, s.Shows v e := by
  induction hd with
  | scalar h => exact h.exists_spelledBy.imp fun _ he => .scalar he
  | @array r h ih =>
    obtain ⟨es, hes⟩ := exists_forall₂ fun x hx => ih x hx (hs.hasValue_of_mem_elements (by simpa using hx))
    exact ⟨_, shows_array hv hes⟩
  | @hash r hk hkeyed h ih =>
    have hh := hs.holds_hash r
    obtain ⟨ps, hps⟩ : ∃ ps, List.Forall₂ s.ShowsEntry (s.hash r).entries ps := by
      refine exists_forall₂ fun e he => ?_
      obtain ⟨k, hk⟩ := (hk e he).exists_spelledBy
      obtain ⟨x, hx⟩ := ih e he (hh.entries e he).2
      exact ⟨(k, x), ⟨hk, hkeyed e he⟩, hx⟩
    exact ⟨_, shows_hash hv hh.keys hps⟩

theorem Shows.forall₂_elements {r : ArrayRef} {es : List Expr} (h : s.Shows (.array r) (.array es)) :
    List.Forall₂ s.Shows (s.elements r).toList es := by
  cases h with
  | scalar h => cases h
  | array hr hlen h => exact List.forall₂_iff_zip.2 ⟨hlen, fun hp => h _ hp⟩

theorem Shows.forall₂_entries {r : HashRef} {ps : List (Expr × Expr)} (h : s.Shows (.hash r) (.hash ps)) :
    List.Forall₂ s.ShowsEntry (s.hash r).entries ps := by
  cases h with
  | scalar h => cases h
  | hash hr hn hk hv =>
    obtain ⟨hlen, hk⟩ := List.forall₂_iff_zip.1 hk
    exact List.forall₂_iff_zip.2 ⟨hlen, fun hp => ⟨hk hp, hv _ hp⟩⟩

theorem Shows.isData (h : s.Shows v e) : e.IsData := by
  induction h with
  | scalar h => exact h.isData
  | array hr hlen h ih => exact .array (forall_mem_of_zip hlen ih)
  | hash hr hn hk hv ih =>
    obtain ⟨hlen, hk⟩ := List.forall₂_iff_zip.1 hk
    exact .hash (forall_mem_of_zip hlen fun p hp => (hk hp).1.isData) (forall_mem_of_zip hlen ih)

/-! ## Larger stores -/

/-- All arrays and hashes of the store are in the other one, as they were. -/
structure Keeps (s t : Store) : Prop where
  arrays : ∀ (i : Nat) (a : Array Value), s.arrays[i]? = some a → t.arrays[i]? = some a
  hashes : ∀ (i : Nat) (h : Hash), s.hashes[i]? = some h → t.hashes[i]? = some h

theorem Keeps.refl (s : Store) : s.Keeps s := ⟨fun _ _ h => h, fun _ _ h => h⟩

theorem Keeps.trans {u : Store} (h : s.Keeps t) (h' : t.Keeps u) : s.Keeps u :=
  ⟨fun i a ha => h'.arrays i a (h.arrays i a ha), fun i x hx => h'.hashes i x (h.hashes i x hx)⟩

theorem keeps_newArray (s : Store) (vs : Array Value) : s.Keeps (s.newArray vs).2 :=
  ⟨fun _ _ h => getElem?_push_of_some h, fun _ _ h => h⟩

theorem keeps_newHash (s : Store) (h : Hash) : s.Keeps (s.newHash h).2 :=
  ⟨fun _ _ h => h, fun _ _ h => getElem?_push_of_some h⟩

theorem Keeps.elements_eq (h : s.Keeps t) {r : ArrayRef} (hr : r.index < s.arrays.size) :
    r.index < t.arrays.size ∧ t.elements r = s.elements r := by
  have ha := Array.getElem?_eq_getElem hr
  have hb := h.arrays _ _ ha
  exact ⟨(Array.getElem?_eq_some_iff.1 hb).1, by rw [elements, elements, ha, hb]⟩

theorem Keeps.hash_eq (h : s.Keeps t) {r : HashRef} (hr : r.index < s.hashes.size) :
    r.index < t.hashes.size ∧ t.hash r = s.hash r := by
  have ha := Array.getElem?_eq_getElem hr
  have hb := h.hashes _ _ ha
  exact ⟨(Array.getElem?_eq_some_iff.1 hb).1, by rw [Store.hash, Store.hash, ha, hb]⟩

theorem Shows.mono (hk : s.Keeps t) (h : s.Shows v e) : t.Shows v e := by
  induction h with
  | scalar h => exact .scalar h
  | array hr hlen h ih =>
    obtain ⟨hr', heq⟩ := hk.elements_eq hr
    rw [← heq] at hlen ih
    exact .array hr' hlen ih
  | hash hr hn hkeys hv ih =>
    obtain ⟨hr', heq⟩ := hk.hash_eq hr
    rw [← heq] at hn hkeys ih
    exact .hash hr' hn hkeys ih

/-! ## Equality -/

/-- The pairs of values that one expression spells out are a bisimulation. -/
theorem isBisimulation_shows (s : Store) : s.IsBisimulation fun v w => ∃ e, s.Shows v e ∧ s.Shows w e := by
  rintro v w ⟨e, hv, hw⟩
  cases hv with
  | scalar h =>
    cases hw with
    | scalar h' =>
      obtain rfl := h.unique h'
      cases h <;> exact Value.identical_iff.2 ⟨rfl, by simp [Value.type]⟩
    | array => cases h
    | hash => cases h
  | @array r es hr hlen h =>
    cases hw with
    | scalar h' => cases h'
    | array hr' hlen' h' =>
      exact forall₂_of_common (Shows.array hr hlen h).forall₂_elements (Shows.array hr' hlen' h').forall₂_elements
  | @hash r ps hr hn hk h =>
    cases hw with
    | scalar h' => cases h'
    | hash hr' hn' hk' h' =>
      have hes := forall₂_of_common (Shows.hash hr hn hk h).forall₂_entries (Shows.hash hr' hn' hk' h').forall₂_entries
      refine ⟨hes.length_eq, fun e he => ?_⟩
      -- the entry in the same place has the same key, for the same expression spells it out
      obtain ⟨d, hd, q, ⟨⟨hkey, hkeyed⟩, hval⟩, ⟨hkey', hkeyed'⟩, hval'⟩ := exists_of_mem_forall₂ hes he
      have hkd : e.2.key = d.2.key := hkey.unique hkey'
      have heq : e.1 = d.1 := by
        rw [hkd, hkeyed'] at hkeyed
        exact (Option.some.inj hkeyed).symm
      refine ⟨d.2, heq ▸ Hash.get?_of_mem hn' hd, ⟨q.1, .scalar hkey, hkd ▸ .scalar hkey⟩, q.2, hval, hval'⟩

theorem alike_of_shows (hv : s.Shows v e) (hw : s.Shows w e) : s.alike v w = true :=
  (isBisimulation_shows s).alikeWithin _ _ ⟨e, hv, hw⟩

/-! ## Layout -/

/-- A value that an array or a hash holds. -/
inductive Holds (s : Store) : Value → Value → Prop where
  | element {r : ArrayRef} {x : Value} (h : x ∈ (s.elements r).toList) : Holds s x (.array r)
  | value {r : HashRef} {e : HashKey × HashPair} (h : e ∈ (s.hash r).entries) : Holds s e.2.value (.hash r)

theorem Shows.acc (h : s.Shows v e) : Acc s.Holds v := by
  induction h with
  | scalar h => exact .intro _ fun x hx => by cases h <;> cases hx
  | array hr hlen h ih =>
    have hacc := List.forall₂_iff_zip.2 ⟨hlen, fun hp => ih _ hp⟩
    refine .intro _ ?_
    rintro x ⟨hx⟩
    obtain ⟨e, -, hx⟩ := exists_of_mem_forall₂ hacc hx
    exact hx
  | hash hr hn hk hv ih =>
    have hacc := List.forall₂_iff_zip.2 ⟨hk.length_eq, fun hp => ih _ hp⟩
    refine .intro _ ?_
    rintro x ⟨⟩
    next he =>
    obtain ⟨q, -, hx⟩ := exists_of_mem_forall₂ hacc he
    exact hx

/-- What can be spelled out is not inside itself. -/
theorem not_transGen_self (h : Acc s.Holds v) : ¬ Relation.TransGen s.Holds v v := by
  induction h with
  | intro v _ ih =>
    intro hv
    obtain ⟨x, hvx, hx⟩ := Relation.TransGen.tail'_iff.1 hv
    exact ih x hx (Relation.TransGen.head' hx hvx)

/-- The arrays of a path, each of which holds the next one, down to a value. -/
structure Above (s : Store) (path : List ArrayRef) (v : Value) : Prop where
  nodup : path.Nodup
  allocated : ∀ r ∈ path, r.index < s.arrays.size
  inside : ∀ r ∈ path, Relation.TransGen s.Holds v (.array r)

variable {path : List ArrayRef}

theorem length_le_of_nodup (hn : path.Nodup) (ha : ∀ r ∈ path, r.index < s.arrays.size) :
    path.length ≤ s.arrays.size := by
  have hsub : path ⊆ (List.range s.arrays.size).map ArrayRef.mk := fun r hr =>
    List.mem_map.2 ⟨r.index, List.mem_range.2 (ha r hr), rfl⟩
  simpa using (hn.subperm hsub).length_le

theorem Above.length_le (h : s.Above path v) : path.length ≤ s.arrays.size :=
  length_le_of_nodup h.nodup h.allocated

theorem Above.of_holds {x : Value} (h : s.Above path v) (hx : s.Holds x v) : s.Above path x :=
  ⟨h.nodup, h.allocated, fun r hr => (h.inside r hr).head hx⟩

theorem Above.cons {r : ArrayRef} {x : Value} (h : s.Above path (.array r)) (hr : r.index < s.arrays.size)
    (hnot : r ∉ path) (hx : s.Holds x (.array r)) : s.Above (r :: path) x where
  nodup := List.nodup_cons.2 ⟨hnot, h.nodup⟩
  allocated := List.forall_mem_cons.2 ⟨hr, h.allocated⟩
  inside := List.forall_mem_cons.2 ⟨.single hx, (h.of_holds hx).inside⟩

/-- Bounds how deep a value goes below a path: every array that is not on it allows for another row of
hashes. -/
def depthBelow (s : Store) (path : List ArrayRef) (v : Value) : Nat :=
  (s.arrays.size - path.length) * (s.hashes.size + 1) + Comparison.hashesBelow s v

theorem depthBelow_cons_lt {r : ArrayRef} (hlen : path.length < s.arrays.size) (x : Value) :
    s.depthBelow (r :: path) x < s.depthBelow path (.array r) := by
  have hx := Comparison.hashesBelow_le s x
  obtain ⟨k, hk⟩ := Nat.exists_eq_add_of_lt hlen
  have h₁ : s.arrays.size - (r :: path).length = k := by rw [List.length_cons]; omega
  have h₂ : s.arrays.size - path.length = k + 1 := by omega
  unfold depthBelow
  rw [h₁, h₂, Nat.add_mul, Nat.one_mul]
  omega

theorem outlineWithin_of_spelledBy (h : v.SpelledBy e) {n : Nat} (hn : 0 < n) :
    s.outlineWithin n path v = e.outline := by
  obtain ⟨n, rfl⟩ := Nat.exists_eq_add_of_lt hn
  cases h <;> rfl

/-- To a sufficient depth, nothing of a value that can be spelled out is cut off. -/
theorem Shows.outlineWithin_eq (hs : s.WF) (h : s.Shows v e) (hp : s.Above path v) {n : Nat}
    (hn : s.depthBelow path v < n) : s.outlineWithin n path v = e.outline := by
  induction h generalizing path n with
  | scalar h => exact outlineWithin_of_spelledBy h (Nat.zero_lt_of_lt hn)
  | @array r es hr hlen h ih =>
    obtain ⟨n, rfl⟩ : ∃ k, n = k + 1 := ⟨n - 1, by omega⟩
    have hnot : r ∉ path := fun hm => not_transGen_self (Shows.array hr hlen h).acc (hp.inside r hm)
    have hes : List.Forall₂ (fun x e => s.outlineWithin n (r :: path) x = e.outline) (s.elements r).toList es := by
      refine List.forall₂_iff_zip.2 ⟨hlen, fun {x e} hxe => ?_⟩
      have hbelow := hp.cons hr hnot (.element (List.of_mem_zip hxe).1)
      have hlt := depthBelow_cons_lt (r := r) hbelow.length_le x
      exact ih (x, e) hxe hbelow (Nat.lt_of_lt_of_le hlt (Nat.le_of_lt_succ hn))
    rw [Expr.outline, Expr.outlines_eq_map, ← map_eq_map_of_forall₂ hes, outlineWithin]
    exact if_neg hnot
  | @hash r ps hr hnd hk hv ih =>
    obtain ⟨n, rfl⟩ : ∃ k, n = k + 1 := ⟨n - 1, by omega⟩
    have hps : List.Forall₂ (fun d q => (s.outlineWithin n path d.2.key, s.outlineWithin n path d.2.value) =
        (q.1.outline, q.2.outline)) (s.hash r).entries ps := by
      obtain ⟨hlen, hk⟩ := List.forall₂_iff_zip.1 hk
      refine List.forall₂_iff_zip.2 ⟨hlen, fun {d q} hdq => ?_⟩
      have hd := (List.of_mem_zip hdq).1
      have hlt : s.depthBelow path d.2.value < s.depthBelow path (.hash r) :=
        Nat.add_lt_add_left (Comparison.hashesBelow_lt hs hd (.inr rfl)) _
      rw [outlineWithin_of_spelledBy (hk hdq).1 (by omega),
        ih (d, q) hdq (hp.of_holds (.value hd)) (Nat.lt_of_lt_of_le hlt (Nat.le_of_lt_succ hn))]
    rw [Expr.outline, Expr.pairOutlines_eq_map, ← map_eq_map_of_forall₂ hps, outlineWithin, Hash.pairs,
      List.map_map]
    rfl

theorem Shows.outline_eq (hs : s.WF) (h : s.Shows v e) : s.outline v = e.outline := by
  refine h.outlineWithin_eq hs ⟨List.nodup_nil, by simp, by simp⟩ ?_
  have hv := Comparison.hashesBelow_le s v
  simp only [depthBelow, depthBound, List.length_nil, Nat.sub_zero, Nat.add_mul, Nat.one_mul]
  omega

end Store

end MonkeyLang
