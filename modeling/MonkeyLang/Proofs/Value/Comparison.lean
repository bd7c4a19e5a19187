/-
How two values are compared. One level of a comparison (`alikeWithin_succ_iff`) either knows the answer
or looks at the parts of both values. Comparisons inside comparisons come to an end: each pair of arrays
is entered once on a path, and between two of them hashes only lead to older hashes (`size_lt`). So a
depth above the size of a comparison never decides its outcome (`alikeWithin_eq_alike`).
-/
import MonkeyLang.Proofs.Store.WellFormed
import MonkeyLang.Value.Equality
import Mathlib.Data.List.Forall2
import Mathlib.Data.List.Perm.Subperm
import Mathlib.Data.List.ProdSigma

namespace MonkeyLang.Store

/-! ## One level -/

/-- The values look the same from the outside, and what they hold is related by `R`. -/
def Matches (s : Store) (R : Value → Value → Prop) : Value → Value → Prop
  | .array a, .array b => List.Forall₂ R (s.elements a).toList (s.elements b).toList
  | .hash a, .hash b => (s.hash a).size = (s.hash b).size ∧ ∀ e ∈ (s.hash a).entries,
    ∃ p, (s.hash b).get? e.1 = some p ∧ R e.2.key p.key ∧ R e.2.value p.value
  | .error e, .error f => e.kind = f.kind ∧ e.message = f.message
  | v, w => v.identical w = true

/-- A pair of values that two arrays or two hashes hold in the same place. -/
inductive Parts (s : Store) : Value → Value → Value → Value → Prop where
  | element {a b : ArrayRef} {x y : Value}
    (h : (x, y) ∈ (s.elements a).toList.zip (s.elements b).toList) : Parts s (.array a) (.array b) x y
  | key {a b : HashRef} {e : HashKey × HashPair} {p : HashPair} (he : e ∈ (s.hash a).entries)
    (hp : (s.hash b).get? e.1 = some p) : Parts s (.hash a) (.hash b) e.2.key p.key
  | value {a b : HashRef} {e : HashKey × HashPair} {p : HashPair} (he : e ∈ (s.hash a).entries)
    (hp : (s.hash b).get? e.1 = some p) : Parts s (.hash a) (.hash b) e.2.value p.value

/-- The answer is known without a look at the parts. -/
def Known (path : List (ArrayRef × ArrayRef)) : Value → Value → Prop
  | .array a, .array b => a = b ∨ (a, b) ∈ path
  | .hash a, .hash b => a = b
  | _, _ => False

/-- The path to the parts of two values. -/
def enter (path : List (ArrayRef × ArrayRef)) : Value → Value → List (ArrayRef × ArrayRef)
  | .array a, .array b => (a, b) :: path
  | _, _ => path

variable {s : Store} {R R' : Value → Value → Prop} {v w : Value} {path : List (ArrayRef × ArrayRef)}

theorem known_iff : Known path v w ↔
    (∃ a b, v = .array a ∧ w = .array b ∧ (a = b ∨ (a, b) ∈ path)) ∨ ∃ a, v = .hash a ∧ w = .hash a := by
  cases v <;> cases w <;> simp [Known, eq_comm]

theorem mem_enter {p : ArrayRef × ArrayRef} (h : p ∈ enter path v w) :
    p ∈ path ∨ v = .array p.1 ∧ w = .array p.2 := by
  unfold enter at h
  split at h
  · rcases List.mem_cons.1 h with rfl | h
    · exact .inr ⟨rfl, rfl⟩
    · exact .inl h
  · exact .inl h

theorem Matches.imp (h : s.Matches R v w) (hR : ∀ x y, s.Parts v w x y → R x y → R' x y) :
    s.Matches R' v w := by
  unfold Matches at h ⊢
  split at h
  · obtain ⟨hlen, hxy⟩ := List.forall₂_iff_zip.1 h
    exact List.forall₂_iff_zip.2 ⟨hlen, fun hmem => hR _ _ (.element hmem) (hxy hmem)⟩
  · refine ⟨h.1, fun e he => ?_⟩
    obtain ⟨p, hp, hk, hv⟩ := h.2 e he
    exact ⟨p, hp, hR _ _ (.key he hp) hk, hR _ _ (.value he hp) hv⟩
  · exact h
  · exact h

theorem Matches.parts (h : s.Matches R v w) {x y : Value} (hxy : s.Parts v w x y) : R x y := by
  cases hxy with
  | element hmem => exact (List.forall₂_iff_zip.1 h).2 hmem
  | key he hp =>
    obtain ⟨q, hq, hk, -⟩ := h.2 _ he
    cases hp.symm.trans hq
    exact hk
  | value he hp =>
    obtain ⟨q, hq, -, hv⟩ := h.2 _ he
    cases hp.symm.trans hq
    exact hv

theorem alikeWithin_succ_iff (n : Nat) : s.alikeWithin (n + 1) path v w = true ↔
    Known path v w ∨ s.Matches (fun x y => s.alikeWithin n (enter path v w) x y = true) v w := by
  cases v with
  | array a =>
    cases w with
    | array b =>
      rw [alikeWithin]
      simp only [Known, Matches, enter, List.forall₂_iff_zip, Bool.or_eq_true, Bool.and_eq_true, beq_iff_eq,
        List.contains_iff_mem, List.all_eq_true, Array.length_toList, Prod.forall]
    | _ => simp [alikeWithin, Known, Matches]
  | hash a =>
    cases w with
    | hash b =>
      rw [alikeWithin]
      simp only [Known, Matches, enter, Bool.or_eq_true, Bool.and_eq_true, beq_iff_eq, List.all_eq_true]
      refine or_congr_right (and_congr_right fun _ => forall₂_congr fun e _ => ?_)
      cases (s.hash b).get? e.1 with
      | none => simp
      | some p => simp
    | _ => simp [alikeWithin, Known, Matches]
  | error e =>
    cases w with
    | error f => simp [alikeWithin, Known, Matches, RuntimeError.sameAs]
    | _ => simp [alikeWithin, Known, Matches]
  | _ => simp [alikeWithin, Known, Matches]

/-! ## Comparisons inside comparisons -/

/-- Two values being compared, below pairs of arrays that are being compared already. -/
structure Comparison where
  path : List (ArrayRef × ArrayRef)
  left : Value
  right : Value

/-- A comparison `c` that can be made in the course of a comparison `d`. -/
structure Inside (s : Store) (c d : Comparison) : Prop where
  unknown : ¬ Known d.path d.left d.right
  parts : s.Parts d.left d.right c.left c.right
  path_eq : c.path = enter d.path d.left d.right

namespace Comparison

/-- The pairs on the path are pairs of arrays of the store, each there once. -/
structure Proper (s : Store) (c : Comparison) : Prop where
  nodup : c.path.Nodup
  allocated : ∀ p ∈ c.path, p.1.index < s.arrays.size ∧ p.2.index < s.arrays.size

theorem proper_start (s : Store) (v w : Value) : Proper s ⟨[], v, w⟩ := ⟨List.nodup_nil, by simp⟩

/-- The number of hashes that can still be entered from a value before the next array. -/
def hashesBelow (s : Store) : Value → Nat
  | .hash r => if r.index < s.hashes.size then r.index + 1 else 0
  | _ => 0

/-- Bounds the number of comparisons that lie inside each other: every pair of arrays that is not on
the path yet allows for another row of hashes. -/
def size (s : Store) (c : Comparison) : Nat :=
  (s.arrays.size * s.arrays.size - c.path.length) * (s.hashes.size + 1) + hashesBelow s c.left

variable {c d : Comparison}

theorem hashesBelow_le (s : Store) (v : Value) : hashesBelow s v ≤ s.hashes.size := by
  unfold hashesBelow
  split
  · split <;> omega
  · omega

theorem size_start_lt (s : Store) (v w : Value) : size s ⟨[], v, w⟩ < s.pairDepthBound := by
  have hle := hashesBelow_le s v
  unfold size pairDepthBound
  simp only [List.length_nil, Nat.sub_zero, Nat.add_mul, Nat.one_mul]
  omega

theorem Proper.length_le (hc : c.Proper s) : c.path.length ≤ s.arrays.size * s.arrays.size := by
  -- all pairs of arrays of the store
  let all := (List.range s.arrays.size ×ˢ List.range s.arrays.size).map
    fun p => (ArrayRef.mk p.1, ArrayRef.mk p.2)
  have hsub : c.path ⊆ all := by
    intro p hp
    obtain ⟨h1, h2⟩ := hc.allocated p hp
    refine List.mem_map.2 ⟨(p.1.index, p.2.index), ?_, rfl⟩
    exact List.mem_product.2 ⟨List.mem_range.2 h1, List.mem_range.2 h2⟩
  have hlen : all.length = s.arrays.size * s.arrays.size := by
    simp [all, List.length_product]
  rw [← hlen]
  exact (hc.nodup.subperm hsub).length_le

/-- Only arrays of the store have elements. -/
theorem allocated_of_mem_elements {r : ArrayRef} {x : Value} (h : x ∈ (s.elements r).toList) :
    r.index < s.arrays.size := by
  by_contra hr
  rw [elements, Array.getElem?_eq_none (by omega)] at h
  simp at h

theorem allocated_of_mem_entries {r : HashRef} {e : HashKey × HashPair} (h : e ∈ (s.hash r).entries) :
    ∃ x, s.hashes[r.index]? = some x ∧ e ∈ x.entries := by
  unfold Store.hash at h
  cases hx : s.hashes[r.index]? with
  | none => rw [hx] at h; simp [Hash.empty] at h
  | some x => rw [hx] at h; exact ⟨x, rfl, h⟩

theorem proper_of_inside (hd : d.Proper s) (h : s.Inside c d) : c.Proper s := by
  obtain ⟨path, v, w⟩ := d
  obtain ⟨path', x, y⟩ := c
  obtain ⟨hknown, hparts, rfl⟩ := h
  cases hparts with
  | element hmem =>
    -- a pair is entered only if it is not known, and both arrays have an element
    obtain ⟨ha, hb⟩ := List.of_mem_zip hmem
    have hnew := not_or.1 hknown
    refine ⟨List.nodup_cons.2 ⟨hnew.2, hd.nodup⟩, fun p hp => ?_⟩
    rcases List.mem_cons.1 hp with rfl | hp
    · exact ⟨allocated_of_mem_elements ha, allocated_of_mem_elements hb⟩
    · exact hd.allocated p hp
  | key he hp => exact ⟨hd.nodup, hd.allocated⟩
  | value he hp => exact ⟨hd.nodup, hd.allocated⟩

/-- What a hash holds is an older hash or none. -/
theorem hashesBelow_lt (hs : s.WF) {r : HashRef} {e : HashKey × HashPair} (he : e ∈ (s.hash r).entries)
    {x : Value} (hx : e.2.key = x ∨ e.2.value = x) : hashesBelow s x < hashesBelow s (.hash r) := by
  obtain ⟨h, hh, hmem⟩ := allocated_of_mem_entries he
  have hr : r.index < s.hashes.size := (Array.getElem?_eq_some_iff.1 hh).1
  have hlt : hashesBelow s (.hash r) = r.index + 1 := if_pos hr
  cases x with
  | hash q =>
    have hq : q.index < r.index := hs.nested _ h hh e hmem q hx
    simp only [hashesBelow]
    split <;> omega
  | _ => simp only [hashesBelow]; split <;> omega

theorem size_lt (hs : s.WF) (hd : d.Proper s) (h : s.Inside c d) : c.size s < d.size s := by
  have hlen := (proper_of_inside hd h).length_le
  obtain ⟨path, v, w⟩ := d
  obtain ⟨path', x, y⟩ := c
  obtain ⟨hknown, hparts, rfl⟩ := h
  cases hparts with
  | element hmem =>
    -- one pair of arrays fewer is left, and this row is no longer than a row can be
    have hx := hashesBelow_le s x
    simp only [size, enter, List.length_cons] at hlen ⊢
    obtain ⟨k, hk⟩ := Nat.exists_eq_add_of_le hlen
    have h1 : s.arrays.size * s.arrays.size - (path.length + 1) = k := by omega
    have h2 : s.arrays.size * s.arrays.size - path.length = k + 1 := by omega
    rw [h1, h2, Nat.add_mul, Nat.one_mul]
    omega
  | key he hp => exact Nat.add_lt_add_left (hashesBelow_lt hs he (.inl rfl)) _
  | value he hp => exact Nat.add_lt_add_left (hashesBelow_lt hs he (.inr rfl)) _

/-- No comparison goes on forever. -/
theorem acc_inside (hs : s.WF) (hd : d.Proper s) : Acc s.Inside d := by
  induction hn : d.size s using Nat.strongRecOn generalizing d with
  | ind n ih =>
    subst hn
    exact .intro d fun c hc => ih _ (size_lt hs hd hc) (proper_of_inside hd hc) rfl

/-- A depth above the size of a comparison is enough. -/
theorem alikeWithin_mono (hs : s.WF) {n m : Nat} (hd : d.Proper s) (hn : d.size s < n) (hm : d.size s < m)
    (h : s.alikeWithin n d.path d.left d.right = true) : s.alikeWithin m d.path d.left d.right = true := by
  induction n generalizing d m with
  | zero => omega
  | succ n ih =>
    obtain ⟨m, rfl⟩ := Nat.exists_eq_add_of_lt (Nat.zero_lt_of_lt hm)
    rw [Nat.zero_add, alikeWithin_succ_iff] at *
    by_cases hk : Known d.path d.left d.right
    · exact .inl hk
    · refine .inr ((h.resolve_left hk).imp fun x y hxy hx => ?_)
      have hin : s.Inside ⟨enter d.path d.left d.right, x, y⟩ d := ⟨hk, hxy, rfl⟩
      have hlt := size_lt hs hd hin
      exact ih (proper_of_inside hd hin) (by omega) (by omega) hx

end Comparison

/-- A depth that is enough decides nothing. -/
theorem alikeWithin_eq_alike (hs : s.WF) {n : Nat} (hn : s.pairDepthBound ≤ n) (v w : Value) :
    s.alikeWithin n [] v w = s.alike v w := by
  have hd := Comparison.proper_start s v w
  have hlt := Comparison.size_start_lt s v w
  rw [Bool.eq_iff_iff]
  constructor
  · exact Comparison.alikeWithin_mono hs hd (by omega) hlt
  · exact Comparison.alikeWithin_mono hs hd hlt (by omega)

end MonkeyLang.Store
