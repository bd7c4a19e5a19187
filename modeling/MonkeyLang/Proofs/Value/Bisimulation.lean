/-
Equality by what values hold is bisimilarity. What a finished comparison finds alike is alike to every
depth (`approx_of_alikeWithin`): a pair that is taken for equal on the path is the very pair that is
being shown alike, and to a smaller depth it is known to be. In the other direction a comparison cannot
tell values apart that a bisimulation relates, whatever is on its path.
-/
import MonkeyLang.Proofs.Store.Reachable
import MonkeyLang.Proofs.Value.Comparison

namespace MonkeyLang

/-! ## Entries of a hash -/

/-- A hash as large as another one that has all its keys has no further key. -/
theorem Hash.mem_keys_of_size_eq {g h : Hash} (hg : (g.entries.map Prod.fst).Nodup)
    (hsize : g.size = h.size) (hsub : g.entries.map Prod.fst ⊆ h.entries.map Prod.fst) {k : HashKey}
    (hk : k ∈ h.entries.map Prod.fst) : k ∈ g.entries.map Prod.fst := by
  have hle : (h.entries.map Prod.fst).length ≤ (g.entries.map Prod.fst).length := by
    simp only [List.length_map]
    exact Nat.le_of_eq hsize.symm
  exact ((hg.subperm hsub).perm_of_length_le hle).mem_iff.2 hk

namespace Store

variable {s : Store} {R S : Value → Value → Prop} {u v w : Value}

/-! ## One level of related values -/

theorem Matches.type_eq (h : s.Matches R v w) : v.type = w.type := by
  unfold Matches at h
  split at h
  · rfl
  · rfl
  · rfl
  · rw [(Value.identical_iff.1 h).1]

theorem Matches.refl (hs : s.WF) (hR : ∀ x, R x x) (v : Value) : s.Matches R v v := by
  cases v with
  | array a => exact List.forall₂_same.2 fun x _ => hR x
  | hash a => exact ⟨rfl, fun e he => ⟨e.2, Hash.get?_of_mem (hs.holds_hash a).keys he, hR _, hR _⟩⟩
  | error e => exact ⟨rfl, rfl⟩
  | _ => exact Value.identical_iff.2 ⟨rfl, by simp [Value.type]⟩

theorem Matches.symm (hs : s.WF) (h : s.Matches R v w) : s.Matches (fun x y => R y x) w v := by
  cases v with
  | array a =>
    cases w with
    | array b => exact List.Forall₂.flip h
    | _ => cases h.type_eq
  | hash a =>
    cases w with
    | hash b =>
      obtain ⟨hsize, hentries⟩ := h
      refine ⟨hsize.symm, fun e he => ?_⟩
      have hsub : (s.hash a).entries.map Prod.fst ⊆ (s.hash b).entries.map Prod.fst := by
        intro k hk
        obtain ⟨d, hd, rfl⟩ := List.mem_map.1 hk
        obtain ⟨p, hp, -⟩ := hentries d hd
        exact List.mem_map.2 ⟨(d.1, p), Hash.mem_of_findEntry hp, rfl⟩
      have hkey := Hash.mem_keys_of_size_eq (hs.holds_hash a).keys hsize hsub (List.mem_map_of_mem he)
      obtain ⟨d, hd, hde⟩ := List.mem_map.1 hkey
      obtain ⟨p, hp, hk, hv⟩ := hentries d hd
      -- the entry of the second hash that `d` is matched with is `e` itself
      rw [hde, Hash.get?_of_mem (hs.holds_hash b).keys he] at hp
      cases hp
      exact ⟨d.2, hde ▸ Hash.get?_of_mem (hs.holds_hash a).keys hd, hk, hv⟩
    | _ => cases h.type_eq
  | error e =>
    cases w with
    | error f => exact ⟨h.1.symm, h.2.symm⟩
    | _ => cases h.type_eq
  | _ =>
    obtain ⟨rfl, -⟩ := Value.identical_iff.1 h
    exact h

theorem forall₂_comp {xs ys zs : List Value} (h : List.Forall₂ R xs ys) (h' : List.Forall₂ S ys zs) :
    List.Forall₂ (Relation.Comp R S) xs zs := by
  induction h generalizing zs with
  | nil => cases h'; exact .nil
  | cons hxy _ ih =>
    cases h' with
    | cons hyz hrest => exact .cons ⟨_, hxy, hyz⟩ (ih hrest)

theorem Matches.trans (h : s.Matches R u v) (h' : s.Matches S v w) :
    s.Matches (Relation.Comp R S) u w := by
  cases v with
  | array b =>
    cases u with
    | array a =>
      cases w with
      | array c => exact forall₂_comp h h'
      | _ => cases h'.type_eq
    | _ => cases h.type_eq
  | hash b =>
    cases u with
    | hash a =>
      cases w with
      | hash c =>
        refine ⟨h.1.trans h'.1, fun e he => ?_⟩
        obtain ⟨p, hp, hk, hv⟩ := h.2 e he
        obtain ⟨q, hq, hk', hv'⟩ := h'.2 (e.1, p) (Hash.mem_of_findEntry hp)
        exact ⟨q, hq, ⟨_, hk, hk'⟩, ⟨_, hv, hv'⟩⟩
      | _ => cases h'.type_eq
    | _ => cases h.type_eq
  | error f =>
    cases u with
    | error e =>
      cases w with
      | error g => exact ⟨h.1.trans h'.1, h.2.trans h'.2⟩
      | _ => cases h'.type_eq
    | _ => cases h.type_eq
  | _ =>
    obtain ⟨rfl, -⟩ := Value.identical_iff.1 h'
    cases u with
    | array a => cases h.type_eq
    | hash a => cases h.type_eq
    | error e => cases h.type_eq
    | _ => exact h

/-! ## Bisimulations -/

/-- Related arrays have as many elements, related one by one; related hashes have as many entries, and
every entry of the first has one of the second under the same key, with related keys and values;
related errors are of the same kind with the same message; and all other related values are identical. -/
def IsBisimulation (s : Store) (R : Value → Value → Prop) : Prop := ∀ v w, R v w → s.Matches R v w

theorem isBisimulation_eq (hs : s.WF) : s.IsBisimulation (· = ·) := by
  rintro v w rfl
  exact Matches.refl hs (fun _ => rfl) v

theorem IsBisimulation.symm (hs : s.WF) (h : s.IsBisimulation R) : s.IsBisimulation fun x y => R y x :=
  fun v w hvw => (h w v hvw).symm hs

theorem IsBisimulation.comp (h : s.IsBisimulation R) (h' : s.IsBisimulation S) :
    s.IsBisimulation (Relation.Comp R S) := by
  rintro u w ⟨v, huv, hvw⟩
  exact (h u v huv).trans (h' v w hvw)

/-- No comparison tells related values apart. -/
theorem IsBisimulation.alikeWithin (h : s.IsBisimulation R) (n : Nat) (path : List (ArrayRef × ArrayRef))
    (hvw : R v w) : s.alikeWithin n path v w = true := by
  induction n generalizing path v w with
  | zero => rfl
  | succ n ih =>
    rw [alikeWithin_succ_iff]
    exact .inr ((h v w hvw).imp fun x y _ hxy => ih _ hxy)

/-! ## Alike to a depth -/

/-- No difference shows in `k` levels, with nothing taken for equal. -/
def approx (s : Store) : Nat → Value → Value → Prop
  | 0 => fun _ _ => True
  | k + 1 => s.Matches (s.approx k)

theorem approx_refl (hs : s.WF) (k : Nat) (v : Value) : s.approx k v v := by
  induction k generalizing v with
  | zero => trivial
  | succ k ih => exact Matches.refl hs ih v

theorem approx_of_succ {k : Nat} (h : s.approx (k + 1) v w) : s.approx k v w := by
  induction k generalizing v w with
  | zero => trivial
  | succ k ih => exact Matches.imp h fun x y _ hxy => ih hxy

theorem isBisimulation_approx (s : Store) : s.IsBisimulation fun v w => ∀ k, s.approx k v w := by
  intro v w h
  exact Matches.imp (h 1) fun x y hxy _ k => Matches.parts (h (k + 1)) hxy

/-- What a comparison finds alike is alike to each depth, if what it takes for equal is. -/
theorem approx_of_alikeWithin (hs : s.WF) (k : Nat) {n : Nat} {d : Comparison} (hd : d.Proper s)
    (hn : d.size s < n) (hpath : ∀ p ∈ d.path, s.approx k (.array p.1) (.array p.2))
    (h : s.alikeWithin n d.path d.left d.right = true) : s.approx k d.left d.right := by
  induction k generalizing n d with
  | zero => trivial
  | succ k ih =>
    -- the pair itself is alike to the smaller depth, so it may stand on the path of its parts
    have hpath' : ∀ p ∈ d.path, s.approx k (.array p.1) (.array p.2) := fun p hp => approx_of_succ (hpath p hp)
    have hself : s.approx k d.left d.right := ih hd hn hpath' h
    obtain ⟨path, v, w⟩ := d
    obtain ⟨n, rfl⟩ : ∃ m, n = m + 1 := ⟨n - 1, by omega⟩
    by_cases hk : Known path v w
    · obtain ⟨a, b, rfl, rfl, rfl | hab⟩ | ⟨a, rfl, rfl⟩ := known_iff.1 hk
      · exact approx_refl hs (k + 1) _
      · exact hpath (a, b) hab
      · exact approx_refl hs (k + 1) _
    · have hparts := (alikeWithin_succ_iff n).1 h |>.resolve_left hk
      refine Matches.imp hparts fun x y hxy halike => ?_
      have hin : s.Inside ⟨enter path v w, x, y⟩ ⟨path, v, w⟩ := ⟨hk, hxy, rfl⟩
      have hlt := Comparison.size_lt hs hd hin
      refine ih (Comparison.proper_of_inside hd hin) (by omega) (fun p hp => ?_) halike
      rcases mem_enter hp with hp | ⟨rfl, rfl⟩
      · exact hpath' p hp
      · exact hself

/-! ## Equality by what values hold -/

theorem alike_iff_bisimilar (hs : s.WF) (v w : Value) :
    s.alike v w = true ↔ ∃ R, s.IsBisimulation R ∧ R v w := by
  constructor
  · intro h
    refine ⟨_, isBisimulation_approx s, fun k => ?_⟩
    exact approx_of_alikeWithin hs k (Comparison.proper_start s v w) (Comparison.size_start_lt s v w) (by simp) h
  · rintro ⟨R, hR, hvw⟩
    exact hR.alikeWithin _ _ hvw

theorem equivalence_alike (hs : s.WF) : Equivalence fun v w => s.alike v w = true where
  refl v := (alike_iff_bisimilar hs v v).2 ⟨_, isBisimulation_eq hs, rfl⟩
  symm h := by
    obtain ⟨R, hR, hvw⟩ := (alike_iff_bisimilar hs _ _).1 h
    exact (alike_iff_bisimilar hs _ _).2 ⟨_, hR.symm hs, hvw⟩
  trans h h' := by
    obtain ⟨R, hR, huv⟩ := (alike_iff_bisimilar hs _ _).1 h
    obtain ⟨S, hS, hvw⟩ := (alike_iff_bisimilar hs _ _).1 h'
    exact (alike_iff_bisimilar hs _ _).2 ⟨_, hR.comp hS, _, huv, hvw⟩

/-- In every store that can come up, comparing two values comes to an end, at a depth within the bound;
it finds exactly the bisimilar values alike; and being alike is an equivalence. -/
theorem alike_decides_bisimilarity (h : s.Reachable) :
    (∀ v w, Acc s.Inside ⟨[], v, w⟩) ∧
    (∀ n, s.pairDepthBound ≤ n → ∀ v w, s.alikeWithin n [] v w = s.alike v w) ∧
    (∀ v w, s.alike v w = true ↔ ∃ R, s.IsBisimulation R ∧ R v w) ∧
    Equivalence fun v w => s.alike v w = true :=
  ⟨fun v w => Comparison.acc_inside h.wf (Comparison.proper_start s v w),
    fun _ hn v w => alikeWithin_eq_alike h.wf hn v w,
    alike_iff_bisimilar h.wf,
    equivalence_alike h.wf⟩

/-- A hash that holds an array under the key `1`. -/
def holding (i : Nat) : Hash := ⟨[(.integer 1, ⟨.int 1, .array ⟨i⟩⟩)]⟩

/-- Two arrays, each of which holds itself through a hash. -/
def twoLoops : Store :=
  let arrays := ((initial.newArray #[]).2.newArray #[]).2
  let hashes := ((arrays.newHash (holding 0)).2.newHash (holding 1)).2
  (hashes.setElements ⟨0⟩ #[.hash ⟨0⟩]).setElements ⟨1⟩ #[.hash ⟨1⟩]

theorem reachable_twoLoops : twoLoops.Reachable := by
  have h1 := Reachable.initial.step (.newArray #[] (by simp))
  have h2 := h1.step (.newArray #[] (by simp))
  have h3 := h2.step (.newHash (holding 0) ⟨by simp [holding, HasValue, newArray], by simp [holding]⟩)
  have h4 := h3.step (.newHash (holding 1) ⟨by simp [holding, HasValue, newArray, newHash], by simp [holding]⟩)
  have h5 := h4.step (.setElements ⟨0⟩ #[.hash ⟨0⟩] (by simp [HasValue, newHash]))
  exact h5.step (.setElements ⟨1⟩ #[.hash ⟨1⟩] (by simp [HasValue, newHash, setElements, newArray, initial]))

theorem alike_decides_bisimilarity_twoLoops : twoLoops.Reachable ∧
    ∃ R, twoLoops.IsBisimulation R ∧ R (.array ⟨0⟩) (.array ⟨1⟩) :=
  ⟨reachable_twoLoops,
    ((alike_decides_bisimilarity reachable_twoLoops).2.2.1 (.array ⟨0⟩) (.array ⟨1⟩)).1 (by decide)⟩

end Store

end MonkeyLang
