/-
The layout of a value without a bound on its depth (`LaidOut`). An array is cut off where it stands inside
itself and nowhere else. There is one layout for each value (`LaidOut.unique`), and the layout to the depth
that a store allows for is that one (`WF.laidOut_outline`): whatever cycles there are, the depth decides
nothing.
-/
import MonkeyLang.Proofs.Value.Data

namespace MonkeyLang.Store

/-- How a value of the store is laid out inside the arrays of a path. -/
inductive LaidOut (s : Store) : List ArrayRef → Value → Outline → Prop where
  | int (path : List ArrayRef) (n : Int64) : LaidOut s path (.int n) (.int n)
  | bool (path : List ArrayRef) (b : Bool) : LaidOut s path (.bool b) (.bool b)
  | null (path : List ArrayRef) : LaidOut s path .null .null
  | string (path : List ArrayRef) (t : String) : LaidOut s path (.string t) (.string t)
  | builtin (path : List ArrayRef) (b : Builtin) : LaidOut s path (.builtin b) (.builtin b)
  | error (path : List ArrayRef) (e : RuntimeError) : LaidOut s path (.error e) (.error e)
  | function (path : List ArrayRef) {r : ClosureRef} {c : Closure} (hc : s.closure? r = some c) :
    LaidOut s path (.function r) (.function c.params c.body)
  | cut {path : List ArrayRef} {r : ArrayRef} (hr : r ∈ path) : LaidOut s path (.array r) .cut
  | array {path : List ArrayRef} {r : ArrayRef} {os : List Outline} (hr : r ∉ path)
    (hlen : (s.elements r).toList.length = os.length)
    (h : ∀ p ∈ (s.elements r).toList.zip os, LaidOut s (r :: path) p.1 p.2) : LaidOut s path (.array r) (.array os)
  | hash {path : List ArrayRef} {r : HashRef} {os : List (Outline × Outline)}
    (hlen : (s.hash r).pairs.length = os.length)
    (hk : ∀ p ∈ (s.hash r).pairs.zip os, LaidOut s path p.1.key p.2.1)
    (hv : ∀ p ∈ (s.hash r).pairs.zip os, LaidOut s path p.1.value p.2.2) : LaidOut s path (.hash r) (.hash os)

variable {s : Store} {path : List ArrayRef} {v : Value} {o o' : Outline}

/-! ## One layout -/

/-- Two lists of the same length that agree with a third one place by place. -/
theorem eq_of_zip {α β : Type} {xs : List α} {ys zs : List β} (hy : xs.length = ys.length)
    (hz : xs.length = zs.length) (h : ∀ p ∈ xs.zip ys, ∀ z, (p.1, z) ∈ xs.zip zs → p.2 = z) : ys = zs := by
  induction xs generalizing ys zs with
  | nil => rw [List.length_eq_zero_iff.1 hy.symm, List.length_eq_zero_iff.1 hz.symm]
  | cons x xs ih =>
    obtain _ | ⟨y, ys⟩ := ys
    · cases hy
    obtain _ | ⟨z, zs⟩ := zs
    · cases hz
    have hhead : y = z := h (x, y) List.mem_cons_self z List.mem_cons_self
    have htail : ys = zs := ih (by simpa using hy) (by simpa using hz) fun p hp w hw =>
      h p (List.mem_cons_of_mem _ hp) w (List.mem_cons_of_mem _ hw)
    rw [hhead, htail]

theorem LaidOut.unique (h : s.LaidOut path v o) (h' : s.LaidOut path v o') : o = o' := by
  induction h generalizing o' with
  | int | bool | null | string | builtin | error => cases h'; rfl
  | function path hc =>
    cases h' with
    | function _ hc' =>
      cases hc.symm.trans hc'
      rfl
  | cut hr =>
    cases h' with
    | cut => rfl
    | array hr' => exact absurd hr hr'
  | array hr hlen h ih =>
    cases h' with
    | cut hr' => exact absurd hr' hr
    | array _ hlen' h' => rw [eq_of_zip hlen hlen' fun p hp w hw => ih p hp (h' _ hw)]
  | hash hlen hk hv ihk ihv =>
    cases h' with
    | hash hlen' hk' hv' =>
      rw [eq_of_zip hlen hlen' fun p hp w hw => Prod.ext (ihk p hp (hk' _ hw)) (ihv p hp (hv' _ hw))]

/-! ## A depth that is enough -/

/-- Every pair of a list and its image is a member and its image. -/
theorem of_mem_zip_map {α β : Type} {xs : List α} {f : α → β} {p : α × β} (h : p ∈ xs.zip (xs.map f)) :
    p.1 ∈ xs ∧ p.2 = f p.1 := by
  obtain ⟨i, hi, rfl⟩ := List.mem_iff_getElem.1 h
  simp

theorem WF.laidOut_outlineWithin (hs : s.WF) (hv : s.HasValue v) (hn : path.Nodup)
    (ha : ∀ r ∈ path, r.index < s.arrays.size) {n : Nat} (hdepth : s.depthBelow path v < n) :
    s.LaidOut path v (s.outlineWithin n path v) := by
  induction n generalizing path v with
  | zero => omega
  | succ n ih =>
    cases v with
    | int n => exact .int path n
    | bool b => exact .bool path b
    | null => exact .null path
    | string t => exact .string path t
    | builtin b => exact .builtin path b
    | error e => exact .error path e
    | function r =>
      have hc : s.closure? r = some s.closures[r.index] := Array.getElem?_eq_getElem hv
      rw [outlineWithin, hc]
      exact .function path hc
    | array r =>
      rw [outlineWithin]
      split
      · next hr => exact .cut hr
      · next hr =>
        have hn' : (r :: path).Nodup := List.nodup_cons.2 ⟨hr, hn⟩
        have ha' : ∀ q ∈ r :: path, q.index < s.arrays.size := List.forall_mem_cons.2 ⟨hv, ha⟩
        have hlen : path.length < s.arrays.size := length_le_of_nodup hn' ha'
        refine .array hr (by simp) fun p hp => ?_
        obtain ⟨hp, heq⟩ := of_mem_zip_map hp
        have hlt := depthBelow_cons_lt (r := r) hlen p.1
        rw [heq]
        exact ih (hs.hasValue_of_mem_elements (by simpa using hp)) hn' ha' (by omega)
    | hash r =>
      -- a hash enters no array: the path stays, and what the hash holds is less deep
      have hpair : ∀ p ∈ (s.hash r).pairs, ∀ x, p.key = x ∨ p.value = x →
          s.LaidOut path x (s.outlineWithin n path x) := by
        intro p hp x hx
        obtain ⟨e, he, rfl⟩ := List.mem_map.1 hp
        have hlt : s.depthBelow path x < s.depthBelow path (.hash r) :=
          Nat.add_lt_add_left (Comparison.hashesBelow_lt hs he hx) _
        have hgood := (hs.holds_hash r).entries e he
        have hx' : s.HasValue x := hx.elim (fun h => h ▸ hgood.1) fun h => h ▸ hgood.2
        exact ih hx' hn ha (by omega)
      rw [outlineWithin]
      refine .hash (by simp) (fun p hp => ?_) fun p hp => ?_
      · obtain ⟨hp, heq⟩ := of_mem_zip_map hp
        rw [heq]
        exact hpair p.1 hp _ (.inl rfl)
      · obtain ⟨hp, heq⟩ := of_mem_zip_map hp
        rw [heq]
        exact hpair p.1 hp _ (.inr rfl)

/-- The layout to any depth from the one that the store allows for. -/
theorem WF.laidOut_of_depthBound_le (hs : s.WF) (hv : s.HasValue v) {n : Nat} (hn : s.depthBound ≤ n) :
    s.LaidOut [] v (s.outlineWithin n [] v) := by
  refine hs.laidOut_outlineWithin hv List.nodup_nil (by simp) (Nat.lt_of_lt_of_le ?_ hn)
  have hle := Comparison.hashesBelow_le s v
  simp only [depthBelow, depthBound, List.length_nil, Nat.sub_zero, Nat.add_mul, Nat.one_mul]
  omega

/-- A value of a well-formed store is laid out in full, an array inside itself excepted. -/
theorem WF.laidOut_outline (hs : s.WF) (hv : s.HasValue v) : s.LaidOut [] v (s.outline v) :=
  hs.laidOut_of_depthBound_le hv (Nat.le_refl _)

/-- More depth does not change the layout. -/
theorem WF.outlineWithin_eq_outline (hs : s.WF) (hv : s.HasValue v) {n : Nat} (hn : s.depthBound ≤ n) :
    s.outlineWithin n [] v = s.outline v :=
  (hs.laidOut_of_depthBound_le hv hn).unique (hs.laidOut_outline hv)

end MonkeyLang.Store
