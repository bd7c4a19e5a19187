/-
Arrays as lists in a shared store. Whatever else holds an array, itself included, the functions on it do what
they do to the list of its elements: they read it, make a new array of all elements but the first, or append to
it in place, so that every holder sees the longer list (`arrays_behave_as_lists`). Nothing else is written: each
function changes one cell at most, and a call with the wrong arguments changes none.
-/
import MonkeyLang.Proofs.Eval.Invariant
import MonkeyLang.Proofs.Session.Signals
import MonkeyLang.Proofs.Store.Twin
import Mathlib.Algebra.Order.Ring.Int

namespace MonkeyLang

/-! ## Holders -/

/-- Where a value is found in a store: under a name in a scope or one around it, in an array, or under a key
of a hash. -/
inductive Place where
  | name (scope : FrameRef) (name : String)
  | element (r : ArrayRef) (i : Nat)
  | entry (r : HashRef) (k : HashKey)

namespace Store

def at? (s : Store) : Place → Option Value
  | .name scope name => s.lookup scope name
  | .element r i => (s.elements r)[i]?
  | .entry r k => ((s.hash r).get? k).map HashPair.value

theorem lookup_eq_of_frames {s t : Store} (h : s.frames = t.frames) (r : FrameRef) (name : String) :
    s.lookup r name = t.lookup r name := by
  have hwithin : ∀ n r, s.lookupWithin name n r = t.lookupWithin name n r := by
    intro n
    induction n with
    | zero => simp [lookupWithin, locals, frame?, h]
    | succ n ih =>
      intro r
      rw [lookupWithin, lookupWithin, locals, locals, frame?, frame?, h, funext ih]
  rw [lookup, lookup, hwithin, h]

/-- Whatever was found in the store before something was appended is found there behind it. -/
theorem at?_append {s : Store} {p : Place} {w : Value} (h : s.at? p = some w) (r : ArrayRef) (v : Value) :
    (s.append r v).at? p = some w := by
  cases p with
  | name scope name =>
    have hframes : (s.append r v).frames = s.frames := rfl
    exact (lookup_eq_of_frames hframes scope name).trans h
  | entry q k => exact h
  | element q i =>
    obtain ⟨hi, -⟩ := Array.getElem?_eq_some_iff.1 h
    have hq : q.index < s.arrays.size := by
      by_contra hq
      simp [elements, Array.getElem?_eq_none (Nat.not_lt.1 hq)] at hi
    by_cases hqr : q = r
    · subst hqr
      rw [at?, elements_append hq, Array.getElem?_push_lt hi, ← Array.getElem?_eq_getElem hi]
      exact h
    · rw [at?, elements_append_of_ne hqr]
      exact h

end Store

/-! ## Calls with the wrong arguments -/

namespace Builtin

/-- The number of arguments of a function on arrays. -/
def arity : Builtin → Nat
  | push => 2
  | _ => 1

/-- Whether the first argument may be of a type. -/
def takes : Builtin → ValueType → Bool
  | len, t => t == .string || t == .array
  | _, t => t == .array

/-- The wrong number of arguments, or a first one of the wrong type. -/
def Misused (b : Builtin) (args : List Value) : Prop :=
  args.length ≠ b.arity ∨ ∃ v ∈ args.head?, b.takes v.type = false

/-- The kind of error that a misused function ends in: the number of arguments is looked at first. -/
def misuse (b : Builtin) (args : List Value) : RuntimeError.Kind :=
  if args.length = b.arity then .typeError else .wrongArguments

theorem soleArray_of_misused {b : Builtin} {args : List Value} (hn : b.arity = 1)
    (ht : ∀ t, b.takes t = (t == .array)) (h : b.Misused args) :
    ∃ e, soleArray b args = .error e ∧ e.kind = b.misuse args := by
  obtain _ | ⟨v, _ | ⟨w, rest⟩⟩ := args
  · exact ⟨.argumentCount 1 0, rfl, by simp [misuse, hn, RuntimeError.kind]⟩
  · have htype : v.type ≠ .array := by simpa [Misused, hn, ht] using h
    refine ⟨.notAnArray b v.type, ?_, by simp [misuse, hn, RuntimeError.kind]⟩
    cases v with
    | array r => exact absurd rfl htype
    | _ => rfl
  · exact ⟨.argumentCount 1 (rest.length + 2), by cases v <;> rfl, by simp [misuse, hn, RuntimeError.kind]⟩

theorem lenOf_of_misused {args : List Value} (h : len.Misused args) (s : Store) :
    ∃ e, lenOf s args = .error e ∧ e.kind = len.misuse args := by
  obtain _ | ⟨v, _ | ⟨w, rest⟩⟩ := args
  · exact ⟨.argumentCount 1 0, rfl, rfl⟩
  · have htype : v.type ≠ .string ∧ v.type ≠ .array := by simpa [Misused, arity, takes] using h
    refine ⟨.noLength v.type, ?_, rfl⟩
    cases v with
    | string t => exact absurd rfl htype.1
    | array r => exact absurd rfl htype.2
    | _ => rfl
  · exact ⟨.argumentCount 1 (rest.length + 2), by cases v <;> rfl, by simp [misuse, arity, RuntimeError.kind]⟩

theorem pushTo_of_misused {args : List Value} (h : push.Misused args) (s : Store) :
    ∃ e, pushTo s args = (.error e, s) ∧ e.kind = push.misuse args := by
  obtain _ | ⟨v, _ | ⟨w, _ | ⟨x, rest⟩⟩⟩ := args
  · exact ⟨.argumentCount 2 0, rfl, rfl⟩
  · exact ⟨.argumentCount 2 1, by cases v <;> rfl, rfl⟩
  · have htype : v.type ≠ .array := by simpa [Misused, arity, takes] using h
    refine ⟨.cannotAppend v.type w.type, ?_, rfl⟩
    cases v with
    | array r => exact absurd rfl htype
    | _ => rfl
  · exact ⟨.argumentCount 2 (rest.length + 3), by cases v <;> rfl, by simp [misuse, arity, RuntimeError.kind]⟩

/-- A misused function fails and leaves the machine as it was. -/
theorem apply_of_misused {b : Builtin} (hb : b ≠ .puts) {args : List Value} (h : b.Misused args) (m : Machine) :
    ∃ e, b.apply args m = (.error e, m) ∧ e.kind = b.misuse args := by
  obtain ⟨s, output⟩ := m
  cases b with
  | len =>
    obtain ⟨e, he, hk⟩ := lenOf_of_misused h s
    exact ⟨e, by rw [apply, he], hk⟩
  | head =>
    obtain ⟨e, he, hk⟩ := soleArray_of_misused rfl (fun _ => rfl) h
    exact ⟨e, by rw [apply, headOf, he]; rfl, hk⟩
  | tail =>
    obtain ⟨e, he, hk⟩ := soleArray_of_misused rfl (fun _ => rfl) h
    exact ⟨e, by simp only [apply, tailOf, he], hk⟩
  | last =>
    obtain ⟨e, he, hk⟩ := soleArray_of_misused rfl (fun _ => rfl) h
    exact ⟨e, by rw [apply, lastOf, he]; rfl, hk⟩
  | push =>
    obtain ⟨e, he, hk⟩ := pushTo_of_misused h s
    exact ⟨e, by simp only [apply, he], hk⟩
  | puts => exact absurd rfl hb

/-! ## What is left alone -/

theorem sameAt_tailOf (s : Store) (args : List Value) {c : Cell} (hc : s.Has c) :
    (tailOf s args).2.SameAt s c := by
  unfold tailOf
  split
  · exact .refl s c
  · split
    · exact .refl s c
    · refine (Store.writes_newArray s _).sameAt c ?_
      rintro rfl
      exact Nat.lt_irrefl _ hc

/-- Every function but `push` leaves all cells as they were. -/
theorem sameAt_apply {b : Builtin} (hb : b ≠ .push) (args : List Value) (m : Machine) {c : Cell}
    (hc : m.store.Has c) : (b.apply args m).2.store.SameAt m.store c := by
  obtain ⟨s, output⟩ := m
  cases b with
  | len => exact .refl s c
  | head => exact .refl s c
  | tail => exact sameAt_tailOf s args hc
  | last => exact .refl s c
  | push => exact absurd rfl hb
  | puts =>
    have hstore : (apply puts args ⟨s, output⟩).2.store = s := Eval.Invariant.store_printAll args ⟨s, output⟩
    rw [hstore]
    exact .refl s c

end Builtin

/-! ## Reading -/

theorem exists_lengthValue (n : Nat) : ∃ k : Int64, lengthValue n = .int k ∧ k.toInt = min (n : Int) (2 ^ 63 - 1) := by
  refine ⟨_, rfl, ?_⟩
  rw [Int64.toInt_ofNat_of_lt]
  · show ((min n (2 ^ 63 - 1) : Nat) : Int) = _
    omega
  · have hle : min n (Text.integerLimit - 1) ≤ Text.integerLimit - 1 := Nat.min_le_right ..
    exact Nat.lt_of_le_of_lt hle (by decide)

namespace Store

variable {s : Store} {r : ArrayRef} {xs : Array Value}

theorem elements_of_getElem? (hr : s.arrays[r.index]? = some xs) : s.elements r = xs := by
  rw [elements, hr, Option.getD_some]

theorem subscript_element (hr : s.arrays[r.index]? = some xs) {i : Int64} {j : Nat} (hj : j < xs.size)
    (hi : i.toInt = j) : s.subscript (.array r) (.int i) = .ok xs[j] := by
  have hpos : ¬ i < 0 := by
    rw [Int64.lt_iff_toInt_lt, hi]
    exact Int.not_lt.2 (Int.natCast_nonneg j)
  simp [subscript, elementAt, elements_of_getElem? hr, hpos, hi, hj]

theorem subscript_outside (hr : s.arrays[r.index]? = some xs) {i : Int64}
    (hi : i.toInt < 0 ∨ (xs.size : Int) ≤ i.toInt) : s.subscript (.array r) (.int i) = .ok .null := by
  simp only [subscript, elementAt, elements_of_getElem? hr]
  split
  · rfl
  · next hpos =>
    rw [Int64.lt_iff_toInt_lt] at hpos
    have hsize : xs.size ≤ i.toInt.toNat := by
      have hzero : (0 : Int64).toInt = 0 := rfl
      omega
    rw [Array.getElem?_eq_none hsize, Option.getD_none]

end Store

/-! ## Arrays as lists -/

namespace Machine

/-- The functions on the array `r` do what they do to the list of its elements `xs`. -/
structure ListLike (m : Machine) (r : ArrayRef) (xs : Array Value) : Prop where
  /-- The length, as far as an integer can hold it. -/
  len : ∃ n : Int64, n.toInt = min (xs.size : Int) (2 ^ 63 - 1) ∧ Builtin.len.apply [.array r] m = (.ok (.int n), m)
  head : Builtin.head.apply [.array r] m = (.ok (xs[0]?.getD .null), m)
  last : Builtin.last.apply [.array r] m = (.ok (xs[xs.size - 1]?.getD .null), m)
  tail_empty : xs = #[] → Builtin.tail.apply [.array r] m = (.ok .null, m)
  /-- The tail is a new array, and all else is as it was. -/
  tail : xs ≠ #[] → ∃ t s, Builtin.tail.apply [.array r] m = (.ok (.array t), ⟨s, m.output⟩) ∧
    ¬ m.store.Has (.array t) ∧ s.arrays[t.index]? = some xs.toList.tail.toArray ∧
    ∀ c, c ≠ .array t → s.SameAt m.store c
  element : ∀ (i : Int64) (j : Nat) (hj : j < xs.size), i.toInt = j →
    m.store.subscript (.array r) (.int i) = .ok xs[j]
  outside : ∀ i : Int64, i.toInt < 0 ∨ (xs.size : Int) ≤ i.toInt →
    m.store.subscript (.array r) (.int i) = .ok .null
  /-- The array itself gets longer, wherever it is found, and all else is as it was. -/
  push : ∀ v, ∃ s, Builtin.push.apply [.array r, v] m = (.ok (.array r), ⟨s, m.output⟩) ∧
    s.arrays[r.index]? = some (xs.push v) ∧ (∀ c, c ≠ .array r → s.SameAt m.store c) ∧
    ∀ p, m.store.at? p = some (.array r) → ∃ q, s.at? p = some (.array q) ∧ s.elements q = xs.push v

variable {m : Machine} {r : ArrayRef} {xs : Array Value}

theorem listLike (hr : m.store.arrays[r.index]? = some xs) : m.ListLike r xs := by
  obtain ⟨s, output⟩ := m
  have hxs : s.elements r = xs := Store.elements_of_getElem? hr
  have hlt : r.index < s.arrays.size := (Array.getElem?_eq_some_iff.1 hr).1
  refine ⟨?_, ?_, ?_, fun hnil => ?_, fun hne => ?_, fun i j hj => Store.subscript_element hr hj,
    fun i => Store.subscript_outside hr, fun v => ?_⟩
  · obtain ⟨n, hn, hk⟩ := exists_lengthValue xs.size
    refine ⟨n, hk, ?_⟩
    rw [← hn, ← hxs]
    rfl
  · rw [← Array.getElem?_toList, ← List.head?_eq_getElem?, ← hxs]
    rfl
  · rw [← Array.back?_eq_getElem?, ← hxs]
    rfl
  · have hlist : (s.elements r).toList = [] := by rw [hxs, hnil]
    simp only [Builtin.apply, Builtin.tailOf, Builtin.soleArray, hlist]
  · obtain ⟨x, rest, hlist⟩ := List.exists_cons_of_ne_nil fun h => hne (Array.toList_eq_nil_iff.1 h)
    refine ⟨⟨s.arrays.size⟩, (s.newArray rest.toArray).2, ?_, Nat.lt_irrefl _, ?_,
      fun c => (Store.writes_newArray s _).sameAt c⟩
    · rw [← hxs] at hlist
      simp only [Builtin.apply, Builtin.tailOf, Builtin.soleArray, hlist]
      rfl
    · rw [hlist, List.tail_cons]
      exact Array.getElem?_push_size
  · have hpush : (s.append r v).elements r = xs.push v := by rw [Store.elements_append hlt, hxs]
    refine ⟨s.append r v, rfl, ?_, fun c => (Store.writes_append s r v).sameAt c, fun p hp => ?_⟩
    · show (s.arrays.modify r.index _)[r.index]? = _
      rw [Array.getElem?_modify, if_pos rfl, hr]
      rfl
    · exact ⟨r, Store.at?_append hp r v, hpush⟩

end Machine

/-- The functions on an array do to its elements what they do to a list, and nothing to any other cell. Subscripts
and all functions but `push` write to no cell that was there; and a function on arrays that is called with the wrong
number of arguments, or with a first one of the wrong type, fails and leaves the machine as it was. -/
theorem arrays_behave_as_lists (m : Machine) (r : ArrayRef) (xs : Array Value)
    (hr : m.store.arrays[r.index]? = some xs) :
    m.ListLike r xs ∧
    (∀ scope c k m₀ m₁ v w, Eval.Gives scope c m₀ (.ok v) m₁ → Eval.Gives scope k m₁ (.ok w) m →
      ∀ o m', Eval.Gives scope (.index c k) m₀ o m' ↔ o = (m.store.subscript v w).mapError .failed ∧ m' = m) ∧
    (∀ b : Builtin, b ≠ .push → ∀ args c, m.store.Has c → (b.apply args m).2.store.SameAt m.store c) ∧
    ∀ b : Builtin, b ≠ .puts → ∀ args, b.Misused args →
      ∃ e, b.apply args m = (.error e, m) ∧ e.kind = b.misuse args := by
  refine ⟨Machine.listLike hr, fun scope c k m₀ m₁ v w hc hk => ?_, fun b hb args c => ?_, fun b hb args h => ?_⟩
  · exact (Eval.gives_subscript hc hk).iff
  · exact Builtin.sameAt_apply hb args m
  · exact Builtin.apply_of_misused hb h m

/-- An array that holds itself, under a name and in another array. -/
def holdingItself : Machine :=
  ⟨⟨#[⟨[("xs", .array ⟨0⟩)], none⟩], #[#[.int 7, .array ⟨0⟩], #[.array ⟨0⟩]], #[], #[]⟩, ""⟩

/-- The array is appended to itself: the other array finds the longer one at its place. The subscript `xs[-1]` is null,
and a tail of nothing fails. -/
theorem arrays_behave_as_lists_holdingItself :
    (∃ s, Builtin.push.apply [.array ⟨0⟩, .array ⟨0⟩] holdingItself = (.ok (.array ⟨0⟩), ⟨s, ""⟩) ∧
      ∃ q, s.at? (.element ⟨1⟩ 0) = some (.array q) ∧ s.elements q = #[.int 7, .array ⟨0⟩, .array ⟨0⟩]) ∧
    Builtin.head.apply [.array ⟨0⟩] holdingItself = (.ok (.int 7), holdingItself) ∧
    (∃ o, Eval.Gives ⟨0⟩ (.index (.ident "xs") (.int (-1))) holdingItself o holdingItself ∧ o = .ok .null) ∧
    ∃ e, Builtin.tail.apply [] holdingItself = (.error e, holdingItself) ∧ e.kind = .wrongArguments := by
  obtain ⟨hlist, hindex, -, hfails⟩ := arrays_behave_as_lists holdingItself ⟨0⟩ #[.int 7, .array ⟨0⟩] rfl
  obtain ⟨s, hpush, -, -, hholders⟩ := hlist.push (.array ⟨0⟩)
  have hnull := hlist.outside (-1) (.inl (by decide))
  refine ⟨⟨s, hpush, hholders (.element ⟨1⟩ 0) rfl⟩, hlist.head, ⟨_, ?_, rfl⟩, ?_⟩
  · refine (hindex ⟨0⟩ (.ident "xs") (.int (-1)) _ _ _ _ ⟨1, rfl⟩ ⟨1, rfl⟩ _ _).2 ⟨?_, rfl⟩
    rw [hnull]
    rfl
  · exact hfails .tail (by decide) [] (.inl (by decide))

end MonkeyLang
