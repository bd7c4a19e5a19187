/-
A condition on all values that a store holds, be it as bindings, as elements of arrays or as keys and
values of hashes (`HoldsOnly`). A change of the store keeps it if what comes in meets the condition, and
what is read from the store meets it.
-/
import MonkeyLang.Proofs.Store.WellFormed

namespace MonkeyLang.Store

/-- The store holds only good values. -/
structure HoldsOnly (good : Value → Prop) (s : Store) : Prop where
  bindings : ∀ (i : Nat) (f : Frame), s.frames[i]? = some f → ∀ b ∈ f.bindings, good b.2
  elements : ∀ (i : Nat) (a : Array Value), s.arrays[i]? = some a → ∀ v ∈ a, good v
  entries : ∀ (i : Nat) (h : Hash), s.hashes[i]? = some h → ∀ e ∈ h.entries, good e.2.key ∧ good e.2.value

variable {good : Value → Prop} {s : Store}

theorem holdsOnly_initial (good : Value → Prop) : HoldsOnly good initial where
  bindings i f hf b hb := by
    have hi : i = 0 := by simpa [initial] using (Array.getElem?_eq_some_iff.1 hf).1
    subst hi
    obtain rfl : ⟨[], none⟩ = f := by simpa [initial] using hf
    cases hb
  elements i a ha := by simp [initial] at ha
  entries i h hh := by simp [initial] at hh

/-! ## Changing -/

theorem HoldsOnly.newFrame (hs : s.HoldsOnly good) (outer : FrameRef) : (s.newFrame outer).2.HoldsOnly good where
  bindings i f hf b hb := by
    rcases getElem?_push_cases hf with hf | ⟨-, rfl⟩
    · exact hs.bindings i f hf b hb
    · cases hb
  elements := hs.elements
  entries := hs.entries

theorem HoldsOnly.newArray (hs : s.HoldsOnly good) {vs : Array Value} (hvs : ∀ v ∈ vs, good v) :
    (s.newArray vs).2.HoldsOnly good where
  bindings := hs.bindings
  elements i a ha v hv := by
    rcases getElem?_push_cases ha with ha | ⟨-, rfl⟩
    · exact hs.elements i a ha v hv
    · exact hvs v hv
  entries := hs.entries

theorem HoldsOnly.newHash (hs : s.HoldsOnly good) {h : Hash} (hh : h.Holds good) : (s.newHash h).2.HoldsOnly good where
  bindings := hs.bindings
  elements := hs.elements
  entries i x hx e he := by
    rcases getElem?_push_cases hx with hx | ⟨-, rfl⟩
    · exact hs.entries i x hx e he
    · exact hh.entries e he

theorem HoldsOnly.newClosure (hs : s.HoldsOnly good) (c : Closure) : (s.newClosure c).2.HoldsOnly good :=
  ⟨hs.bindings, hs.elements, hs.entries⟩

theorem HoldsOnly.define (hs : s.HoldsOnly good) (r : FrameRef) (name : String) {v : Value} (hv : good v) :
    (s.define r name v).HoldsOnly good where
  bindings i g hg b hb := by
    obtain ⟨f, hf, rfl | ⟨-, rfl⟩⟩ := getElem?_modify_cases hg
    · exact hs.bindings i g hf b hb
    · rcases Bindings.mem_define hb with rfl | hb
      · exact hv
      · exact hs.bindings i f hf b hb
  elements := hs.elements
  entries := hs.entries

theorem HoldsOnly.append (hs : s.HoldsOnly good) (r : ArrayRef) {v : Value} (hv : good v) :
    (s.append r v).HoldsOnly good where
  bindings := hs.bindings
  elements i a ha w hw := by
    obtain ⟨b, hb, rfl | ⟨-, rfl⟩⟩ := getElem?_modify_cases ha
    · exact hs.elements i a hb w hw
    · rcases Array.mem_push.1 hw with hw | rfl
      · exact hs.elements i b hb w hw
      · exact hv
  entries := hs.entries

/-! ## Reading -/

theorem HoldsOnly.of_mem_elements (hs : s.HoldsOnly good) {r : ArrayRef} {v : Value} (h : v ∈ s.elements r) :
    good v := by
  obtain ⟨a, ha, hv⟩ := exists_of_mem_elements h
  exact hs.elements _ a ha v hv

theorem HoldsOnly.of_mem_entries (hs : s.HoldsOnly good) {r : HashRef} {e : HashKey × HashPair}
    (h : e ∈ (s.hash r).entries) : good e.2.key ∧ good e.2.value := by
  obtain ⟨x, hx, he⟩ := exists_of_mem_entries h
  exact hs.entries _ x hx e he

theorem HoldsOnly.of_lookup (hs : s.HoldsOnly good) {r : FrameRef} {name : String} {v : Value}
    (h : s.lookup r name = some v) : good v := by
  obtain ⟨i, f, hf, hv⟩ := exists_of_lookupWithin h
  exact hs.bindings i f hf _ hv

end MonkeyLang.Store
