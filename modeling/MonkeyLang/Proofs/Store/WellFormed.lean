/-
Well-formed stores (`WF`): every value in a store leads into the tables of the store, and a hash holds
only older hashes and has each key once. Stores only grow (`Extends`), and each change of a store keeps
it well-formed.
-/
import MonkeyLang.Store.Basic
import Mathlib.Tactic.Common

namespace MonkeyLang

/-! ## Bindings and hashes -/

theorem Bindings.mem_of_get? {name : String} {v : Value} {b : Bindings} (h : b.get? name = some v) :
    (name, v) ∈ b := by
  fun_induction Bindings.get? name b <;> simp_all

theorem Bindings.mem_define {name : String} {v : Value} {b : Bindings} {p : String × Value}
    (h : p ∈ b.define name v) : p = (name, v) ∨ p ∈ b := by
  fun_induction Bindings.define name v b <;> grind

theorem Hash.mem_insertEntry {k : HashKey} {p : HashPair} {es : List (HashKey × HashPair)}
    {e : HashKey × HashPair} (he : e ∈ Hash.insertEntry k p es) : e = (k, p) ∨ e ∈ es := by
  fun_induction Hash.insertEntry k p es <;> grind

theorem Hash.mem_of_findEntry {k : HashKey} {p : HashPair} {es : List (HashKey × HashPair)}
    (h : Hash.findEntry k es = some p) : (k, p) ∈ es := by
  fun_induction Hash.findEntry k es <;> simp_all

theorem Hash.get?_of_mem {h : Hash} (hn : (h.entries.map Prod.fst).Nodup) {e : HashKey × HashPair}
    (he : e ∈ h.entries) : h.get? e.1 = some e.2 := by
  obtain ⟨es⟩ := h
  unfold Hash.get?
  fun_induction Hash.findEntry e.1 es with
  | case1 => simp at he
  | case2 p rest => grind
  | case3 l p rest hne ih => grind

theorem Hash.nodup_insert {h : Hash} (hn : (h.entries.map Prod.fst).Nodup) (k : HashKey) (p : HashPair) :
    ((h.insert k p).entries.map Prod.fst).Nodup := by
  rw [Hash.keys_insert]
  split
  · exact hn
  · next hk => simp [List.nodup_append, hn]; grind

/-- A hash of good values, each key once. -/
structure Hash.Holds (good : Value → Prop) (h : Hash) : Prop where
  entries : ∀ e ∈ h.entries, good e.2.key ∧ good e.2.value
  keys : (h.entries.map Prod.fst).Nodup

theorem Hash.holds_empty (good : Value → Prop) : Hash.empty.Holds good :=
  ⟨by simp [Hash.empty], by simp [Hash.empty]⟩

theorem Hash.Holds.insert {good : Value → Prop} {h : Hash} (hh : h.Holds good) {k : HashKey}
    {p : HashPair} (hk : good p.key) (hv : good p.value) : (h.insert k p).Holds good where
  entries e he := by
    rcases Hash.mem_insertEntry he with rfl | he
    · exact ⟨hk, hv⟩
    · exact hh.entries e he
  keys := Hash.nodup_insert hh.keys k p

theorem Hash.Holds.mono {good good' : Value → Prop} (hg : ∀ v, good v → good' v) {h : Hash}
    (hh : h.Holds good) : h.Holds good' :=
  ⟨fun e he => (hh.entries e he).imp (hg _) (hg _), hh.keys⟩

namespace Store

/-! ## Well-formed stores -/

/-- A reference in the value leads into its table. -/
def HasValue (s : Store) : Value → Prop
  | .array r => r.index < s.arrays.size
  | .hash r => r.index < s.hashes.size
  | .function r => r.index < s.closures.size
  | _ => True

structure WF (s : Store) : Prop where
  bindings : ∀ (i : Nat) (f : Frame), s.frames[i]? = some f → ∀ b ∈ f.bindings, s.HasValue b.2
  elements : ∀ (i : Nat) (a : Array Value), s.arrays[i]? = some a → ∀ v ∈ a, s.HasValue v
  entries : ∀ (i : Nat) (h : Hash), s.hashes[i]? = some h → ∀ e ∈ h.entries, s.HasValue e.2.key ∧ s.HasValue e.2.value
  /-- A hash holds only hashes that were made before it. -/
  nested : ∀ (i : Nat) (h : Hash), s.hashes[i]? = some h → ∀ e ∈ h.entries, ∀ r,
    e.2.key = .hash r ∨ e.2.value = .hash r → r.index < i
  keys : ∀ (i : Nat) (h : Hash), s.hashes[i]? = some h → (h.entries.map Prod.fst).Nodup

theorem wf_initial : WF initial where
  bindings i f hf := by
    have hi : i = 0 := by simpa [initial] using (Array.getElem?_eq_some_iff.1 hf).1
    subst hi
    obtain rfl : ⟨[], none⟩ = f := by simpa [initial] using hf
    simp
  elements i a ha := by simp [initial] at ha
  entries i h hh := by simp [initial] at hh
  nested i h hh := by simp [initial] at hh
  keys i h hh := by simp [initial] at hh

/-! ## Growth -/

/-- Arrays get longer at the end, hashes and closures stay, and scopes keep the scope around them and
every name they bind. -/
structure Extends (s t : Store) : Prop where
  frames : ∀ (i : Nat) (f : Frame), s.frames[i]? = some f → ∃ g, t.frames[i]? = some g ∧ g.outer = f.outer ∧
    ∀ name, (f.bindings.get? name).isSome → (g.bindings.get? name).isSome
  arrays : ∀ (i : Nat) (a : Array Value), s.arrays[i]? = some a → ∃ b, t.arrays[i]? = some b ∧ a.toList <+: b.toList
  hashes : ∀ (i : Nat) (h : Hash), s.hashes[i]? = some h → t.hashes[i]? = some h
  closures : ∀ (i : Nat) (c : Closure), s.closures[i]? = some c → t.closures[i]? = some c

variable {s t u : Store}

theorem Extends.refl (s : Store) : s.Extends s :=
  ⟨fun _ f h => ⟨f, h, rfl, fun _ h => h⟩, fun _ a h => ⟨a, h, List.prefix_refl _⟩, fun _ _ h => h,
    fun _ _ h => h⟩

theorem Extends.trans (h : s.Extends t) (h' : t.Extends u) : s.Extends u where
  frames i f hf := by
    obtain ⟨g, hg, ho, hb⟩ := h.frames i f hf
    obtain ⟨g', hg', ho', hb'⟩ := h'.frames i g hg
    exact ⟨g', hg', ho'.trans ho, fun name hn => hb' name (hb name hn)⟩
  arrays i a ha := by
    obtain ⟨b, hb, hp⟩ := h.arrays i a ha
    obtain ⟨c, hc, hp'⟩ := h'.arrays i b hb
    exact ⟨c, hc, hp.trans hp'⟩
  hashes i x hx := h'.hashes i x (h.hashes i x hx)
  closures i c hc := h'.closures i c (h.closures i c hc)

/-- Places of one table are places of the other if every entry of the one has one in the other. -/
theorem size_le_of_getElem? {α β : Type} {xs : Array α} {ys : Array β}
    (h : ∀ (i : Nat) (x : α), xs[i]? = some x → ∃ y, ys[i]? = some y) : xs.size ≤ ys.size := by
  by_contra hlt
  obtain ⟨y, hy⟩ := h ys.size (xs[ys.size]) (Array.getElem?_eq_getElem (by omega))
  have := (Array.getElem?_eq_some_iff.1 hy).1
  omega

theorem Extends.hasValue (h : s.Extends t) {v : Value} (hv : s.HasValue v) : t.HasValue v := by
  cases v with
  | array r =>
    exact Nat.lt_of_lt_of_le hv (size_le_of_getElem? fun i a ha => (h.arrays i a ha).imp fun _ hb => hb.1)
  | hash r => exact Nat.lt_of_lt_of_le hv (size_le_of_getElem? fun i x hx => ⟨x, h.hashes i x hx⟩)
  | function r => exact Nat.lt_of_lt_of_le hv (size_le_of_getElem? fun i c hc => ⟨c, h.closures i c hc⟩)
  | _ => trivial

/-! ## Making -/

theorem getElem?_push_cases {α : Type} {xs : Array α} {x y : α} {i : Nat} (h : (xs.push x)[i]? = some y) :
    xs[i]? = some y ∨ i = xs.size ∧ y = x := by
  rw [Array.getElem?_push] at h
  split at h
  · next hi => exact .inr ⟨hi, (Option.some.inj h).symm⟩
  · exact .inl h

theorem getElem?_push_of_some {α : Type} {xs : Array α} {x y : α} {i : Nat} (h : xs[i]? = some y) :
    (xs.push x)[i]? = some y := by
  have hi := (Array.getElem?_eq_some_iff.1 h).1
  rw [Array.getElem?_push, if_neg (by omega), h]

/-- Another scope. -/
def pushFrame (s : Store) (f : Frame) : Store := { s with frames := s.frames.push f }

theorem extends_pushFrame (s : Store) (f : Frame) : s.Extends (s.pushFrame f) :=
  ⟨fun _ f h => ⟨f, getElem?_push_of_some h, rfl, fun _ h => h⟩, fun _ a h => ⟨a, h, List.prefix_refl _⟩,
    fun _ _ h => h, fun _ _ h => h⟩

theorem WF.pushFrame (hs : s.WF) {f : Frame} (hf : ∀ b ∈ f.bindings, s.HasValue b.2) :
    (s.pushFrame f).WF where
  bindings i g hg := by
    rcases getElem?_push_cases hg with hg | ⟨rfl, rfl⟩
    · exact hs.bindings i g hg
    · exact hf
  elements := hs.elements
  entries := hs.entries
  nested := hs.nested
  keys := hs.keys

theorem extends_newArray (s : Store) (elements : Array Value) : s.Extends (s.newArray elements).2 :=
  ⟨fun _ f h => ⟨f, h, rfl, fun _ h => h⟩, fun _ a h => ⟨a, getElem?_push_of_some h, List.prefix_refl _⟩,
    fun _ _ h => h, fun _ _ h => h⟩

theorem WF.newArray (hs : s.WF) {elements : Array Value} (h : ∀ v ∈ elements, s.HasValue v) :
    (s.newArray elements).2.WF where
  bindings i f hf b hb := (extends_newArray s elements).hasValue (hs.bindings i f hf b hb)
  elements i a ha v hv := by
    refine (extends_newArray s elements).hasValue ?_
    rcases getElem?_push_cases ha with ha | ⟨rfl, rfl⟩
    · exact hs.elements i a ha v hv
    · exact h v hv
  entries i x hx e he := (hs.entries i x hx e he).imp (extends_newArray s elements).hasValue
    (extends_newArray s elements).hasValue
  nested := hs.nested
  keys := hs.keys

theorem extends_newHash (s : Store) (h : Hash) : s.Extends (s.newHash h).2 :=
  ⟨fun _ f h => ⟨f, h, rfl, fun _ h => h⟩, fun _ a h => ⟨a, h, List.prefix_refl _⟩,
    fun _ _ h => getElem?_push_of_some h, fun _ _ h => h⟩

theorem WF.newHash (hs : s.WF) {h : Hash} (hh : h.Holds s.HasValue) : (s.newHash h).2.WF where
  bindings i f hf b hb := (extends_newHash s h).hasValue (hs.bindings i f hf b hb)
  elements i a ha v hv := (extends_newHash s h).hasValue (hs.elements i a ha v hv)
  entries i x hx e he := by
    refine And.imp (extends_newHash s h).hasValue (extends_newHash s h).hasValue ?_
    rcases getElem?_push_cases hx with hx | ⟨rfl, rfl⟩
    · exact hs.entries i x hx e he
    · exact hh.entries e he
  nested i x hx e he r hr := by
    rcases getElem?_push_cases hx with hx | ⟨rfl, rfl⟩
    · exact hs.nested i x hx e he r hr
    · -- all that the new hash holds was there before
      obtain ⟨hk, hv⟩ := hh.entries e he
      rcases hr with hr | hr
      · rw [hr] at hk; exact hk
      · rw [hr] at hv; exact hv
  keys i x hx := by
    rcases getElem?_push_cases hx with hx | ⟨rfl, rfl⟩
    · exact hs.keys i x hx
    · exact hh.keys

theorem extends_newClosure (s : Store) (c : Closure) : s.Extends (s.newClosure c).2 :=
  ⟨fun _ f h => ⟨f, h, rfl, fun _ h => h⟩, fun _ a h => ⟨a, h, List.prefix_refl _⟩,
    fun _ _ h => h, fun _ _ h => getElem?_push_of_some h⟩

theorem WF.newClosure (hs : s.WF) (c : Closure) : (s.newClosure c).2.WF where
  bindings i f hf b hb := (extends_newClosure s c).hasValue (hs.bindings i f hf b hb)
  elements i a ha v hv := (extends_newClosure s c).hasValue (hs.elements i a ha v hv)
  entries i x hx e he := (hs.entries i x hx e he).imp (extends_newClosure s c).hasValue
    (extends_newClosure s c).hasValue
  nested := hs.nested
  keys := hs.keys

/-! ## Changing -/

theorem getElem?_modify_cases {α : Type} {xs : Array α} {f : α → α} {i j : Nat} {y : α}
    (h : (xs.modify j f)[i]? = some y) : ∃ x, xs[i]? = some x ∧ (y = x ∨ i = j ∧ y = f x) := by
  rw [Array.getElem?_modify] at h
  split at h
  · next hj =>
    obtain ⟨x, hx, rfl⟩ := Option.map_eq_some_iff.1 h
    exact ⟨x, hx, .inr ⟨hj.symm, rfl⟩⟩
  · exact ⟨y, h, .inl rfl⟩

theorem getElem?_modify_of_some {α : Type} {xs : Array α} {f : α → α} {i : Nat} {x : α} (j : Nat)
    (h : xs[i]? = some x) : (xs.modify j f)[i]? = some x ∨ (xs.modify j f)[i]? = some (f x) := by
  rw [Array.getElem?_modify]
  split
  · right; rw [h]; rfl
  · left; exact h

theorem extends_define (s : Store) (r : FrameRef) (name : String) (v : Value) :
    s.Extends (s.define r name v) where
  frames i f hf := by
    rcases getElem?_modify_of_some r.index hf with hg | hg
    · exact ⟨f, hg, rfl, fun _ h => h⟩
    · refine ⟨_, hg, rfl, fun x hx => ?_⟩
      rw [Bindings.get?_define]
      split
      · rfl
      · exact hx
  arrays _ a h := ⟨a, h, List.prefix_refl _⟩
  hashes _ _ h := h
  closures _ _ h := h

theorem WF.modify_frames (hs : s.WF) (j : Nat) (f : Frame → Frame)
    (h : ∀ g, s.frames[j]? = some g → ∀ b ∈ (f g).bindings, s.HasValue b.2) :
    WF { s with frames := s.frames.modify j f } where
  bindings i g hg b hb := by
    obtain ⟨g', hg', rfl | ⟨rfl, rfl⟩⟩ := getElem?_modify_cases hg
    · exact hs.bindings i g hg' b hb
    · exact h g' hg' b hb
  elements := hs.elements
  entries := hs.entries
  nested := hs.nested
  keys := hs.keys

theorem WF.define (hs : s.WF) (r : FrameRef) (name : String) {v : Value} (hv : s.HasValue v) :
    (s.define r name v).WF :=
  hs.modify_frames _ _ fun g hg b hb => by
    rcases Bindings.mem_define hb with rfl | hb
    · exact hv
    · exact hs.bindings _ g hg b hb

/-- Another scope in the place of a scope. -/
def setFrame (s : Store) (r : FrameRef) (f : Frame) : Store :=
  { s with frames := s.frames.modify r.index fun _ => f }

theorem WF.setFrame (hs : s.WF) (r : FrameRef) {f : Frame} (hf : ∀ b ∈ f.bindings, s.HasValue b.2) :
    (s.setFrame r f).WF :=
  hs.modify_frames _ _ fun _ _ => hf

theorem extends_append (s : Store) (r : ArrayRef) (v : Value) : s.Extends (s.append r v) where
  frames _ f h := ⟨f, h, rfl, fun _ h => h⟩
  arrays i a ha := by
    rcases getElem?_modify_of_some r.index ha with hb | hb
    · exact ⟨a, hb, List.prefix_refl _⟩
    · exact ⟨_, hb, by simp⟩
  hashes _ _ h := h
  closures _ _ h := h

/-- Other elements in an array. -/
def setElements (s : Store) (r : ArrayRef) (elements : Array Value) : Store :=
  { s with arrays := s.arrays.modify r.index fun _ => elements }

theorem hasValue_modify_arrays {j : Nat} {f : Array Value → Array Value} {v : Value} :
    HasValue { s with arrays := s.arrays.modify j f } v ↔ s.HasValue v := by
  cases v <;> simp [HasValue]

theorem WF.modify_arrays (hs : s.WF) (j : Nat) (f : Array Value → Array Value)
    (h : ∀ a, s.arrays[j]? = some a → ∀ v ∈ f a, s.HasValue v) :
    WF { s with arrays := s.arrays.modify j f } where
  bindings i g hg b hb := hasValue_modify_arrays.2 (hs.bindings i g hg b hb)
  elements i a ha v hv := by
    rw [hasValue_modify_arrays]
    obtain ⟨b, hb, rfl | ⟨rfl, rfl⟩⟩ := getElem?_modify_cases ha
    · exact hs.elements i a hb v hv
    · exact h b hb v hv
  entries i x hx e he := (hs.entries i x hx e he).imp hasValue_modify_arrays.2 hasValue_modify_arrays.2
  nested := hs.nested
  keys := hs.keys

theorem WF.append (hs : s.WF) (r : ArrayRef) {v : Value} (hv : s.HasValue v) : (s.append r v).WF :=
  hs.modify_arrays _ _ fun a ha w hw => by
    rcases Array.mem_push.1 hw with hw | rfl
    · exact hs.elements _ a ha w hw
    · exact hv

theorem WF.setElements (hs : s.WF) (r : ArrayRef) {elements : Array Value}
    (h : ∀ v ∈ elements, s.HasValue v) : (s.setElements r elements).WF :=
  hs.modify_arrays _ _ fun _ _ => h

/-! ## Reading -/

theorem exists_of_mem_elements {r : ArrayRef} {v : Value} (h : v ∈ s.elements r) :
    ∃ a, s.arrays[r.index]? = some a ∧ v ∈ a := by
  unfold Store.elements at h
  cases ha : s.arrays[r.index]? with
  | none => rw [ha] at h; simp at h
  | some a => rw [ha] at h; exact ⟨a, rfl, h⟩

theorem exists_of_mem_entries {r : HashRef} {e : HashKey × HashPair} (h : e ∈ (s.hash r).entries) :
    ∃ x, s.hashes[r.index]? = some x ∧ e ∈ x.entries := by
  unfold Store.hash at h
  cases hx : s.hashes[r.index]? with
  | none => rw [hx] at h; cases h
  | some x => rw [hx] at h; exact ⟨x, rfl, h⟩

theorem exists_of_locals {r : FrameRef} {name : String} {v : Value} (h : (s.locals r).get? name = some v) :
    ∃ f, s.frames[r.index]? = some f ∧ (name, v) ∈ f.bindings := by
  unfold Store.locals frame? at h
  cases hf : s.frames[r.index]? with
  | none => rw [hf] at h; cases h
  | some f => rw [hf] at h; exact ⟨f, rfl, Bindings.mem_of_get? h⟩

/-- What a look-up finds is bound in one of the scopes. -/
theorem exists_of_lookupWithin {n : Nat} {r : FrameRef} {name : String} {v : Value}
    (h : s.lookupWithin name n r = some v) : ∃ (i : Nat) (f : Frame), s.frames[i]? = some f ∧ (name, v) ∈ f.bindings := by
  induction n generalizing r with
  | zero => exact ⟨_, exists_of_locals h⟩
  | succ n ih =>
    rw [lookupWithin] at h
    split at h
    · next w hw => cases h; exact ⟨_, exists_of_locals hw⟩
    · obtain ⟨r', -, hr'⟩ := Option.bind_eq_some_iff.1 h
      exact ih hr'

theorem WF.hasValue_of_mem_elements (hs : s.WF) {r : ArrayRef} {v : Value} (h : v ∈ s.elements r) :
    s.HasValue v := by
  obtain ⟨a, ha, hv⟩ := exists_of_mem_elements h
  exact hs.elements _ a ha v hv

theorem WF.holds_hash (hs : s.WF) (r : HashRef) : (s.hash r).Holds s.HasValue := by
  unfold Store.hash
  cases hh : s.hashes[r.index]? with
  | none => exact Hash.holds_empty _
  | some h => exact ⟨hs.entries _ h hh, hs.keys _ h hh⟩

theorem WF.hasValue_of_lookupWithin (hs : s.WF) {n : Nat} {r : FrameRef} {name : String} {v : Value}
    (h : s.lookupWithin name n r = some v) : s.HasValue v := by
  obtain ⟨i, f, hf, hv⟩ := exists_of_lookupWithin h
  exact hs.bindings i f hf _ hv

end Store

end MonkeyLang
