/-
Scopes inside scopes. Every scope but the global one lies in an older one, and every function was made in a
scope of the store (`Scoped`). So one gets from each scope outward to the global scope, and passes no scope
twice (`Scoped.leadsOut`). Evaluation keeps stores that way (`Invariant.scoped`).
-/
import MonkeyLang.Proofs.Eval.Invariant

namespace MonkeyLang

namespace Store

variable {s : Store}

/-! ## Chains of scopes -/

/-- The scopes from one outward, up to one that lies in no other. -/
inductive Chain (s : Store) : FrameRef → List FrameRef → Prop where
  | last {r : FrameRef} {f : Frame} (hf : s.frame? r = some f) (ho : f.outer = none) : Chain s r [r]
  | next {r o : FrameRef} {f : Frame} {rs : List FrameRef} (hf : s.frame? r = some f) (ho : f.outer = some o)
    (h : Chain s o rs) : Chain s r (r :: rs)

/-- From the scope outward one gets to the global scope and to its end there, and passes no scope twice. -/
def LeadsOut (s : Store) (r : FrameRef) : Prop :=
  ∃ rs, s.Chain r rs ∧ rs.Nodup ∧ rs.getLast? = some global

structure Scoped (s : Store) : Prop where
  root : ∃ f, s.frames[0]? = some f ∧ f.outer = none
  /-- Every other scope lies in one that was made before it. -/
  outer : ∀ (i : Nat) (f : Frame), s.frames[i]? = some f → 0 < i → ∃ o, f.outer = some o ∧ o.index < i
  closures : ∀ (i : Nat) (c : Closure), s.closures[i]? = some c → c.scope.index < s.frames.size

theorem Scoped.size_pos (hs : s.Scoped) : 0 < s.frames.size := by
  obtain ⟨f, hf, -⟩ := hs.root
  exact (Array.getElem?_eq_some_iff.1 hf).1

/-- What lies around a scope is older than it. -/
theorem Scoped.exists_chain (hs : s.Scoped) {r : FrameRef} (hr : r.index < s.frames.size) :
    ∃ rs, s.Chain r rs ∧ rs.Nodup ∧ rs.getLast? = some global ∧ ∀ q ∈ rs, q.index ≤ r.index := by
  -- by the age of the scope, for the one around it is older
  obtain ⟨i⟩ := r
  induction i using Nat.strongRecOn with
  | ind i ih =>
    by_cases hi : i = 0
    · subst hi
      obtain ⟨f, hf, ho⟩ := hs.root
      exact ⟨[⟨0⟩], .last hf ho, by simp, rfl, by simp⟩
    · have hf : s.frames[i]? = some s.frames[i] := Array.getElem?_eq_getElem hr
      obtain ⟨⟨o⟩, ho, hlt⟩ := hs.outer i _ hf (by omega)
      obtain ⟨rs, hchain, hnodup, hlast, hle⟩ := ih o hlt (Nat.lt_trans hlt hr)
      refine ⟨⟨i⟩ :: rs, .next hf ho hchain, List.nodup_cons.2 ⟨fun hm => ?_, hnodup⟩, ?_, ?_⟩
      · have hio : i ≤ o := hle ⟨i⟩ hm
        have hoi : o < i := hlt
        omega
      · rw [List.getLast?_cons, hlast]
        rfl
      · rintro q hq
        rcases List.mem_cons.1 hq with rfl | hq
        · exact Nat.le_refl _
        · exact Nat.le_trans (hle q hq) (Nat.le_of_lt hlt)

theorem Scoped.leadsOut (hs : s.Scoped) {r : FrameRef} (hr : r.index < s.frames.size) : s.LeadsOut r := by
  obtain ⟨rs, hchain, hnodup, hlast, -⟩ := hs.exists_chain hr
  exact ⟨rs, hchain, hnodup, hlast⟩

/-! ## Making and changing -/

theorem scoped_initial : initial.Scoped where
  root := ⟨_, rfl, rfl⟩
  outer i f hf hi := by
    have hlt : i < 1 := (Array.getElem?_eq_some_iff.1 hf).1
    omega
  closures i c hc := by simp [initial] at hc

theorem Scoped.newFrame (hs : s.Scoped) {outer : FrameRef} (ho : outer.index < s.frames.size) :
    (s.newFrame outer).2.Scoped where
  root := hs.root.imp fun _ hf => ⟨getElem?_push_of_some hf.1, hf.2⟩
  outer i f hf hi := by
    rcases getElem?_push_cases hf with hf | ⟨rfl, rfl⟩
    · exact hs.outer i f hf hi
    · exact ⟨outer, rfl, ho⟩
  closures i c hc := by
    have hlt := hs.closures i c hc
    simp only [Store.newFrame, Array.size_push]
    omega

theorem Scoped.newClosure (hs : s.Scoped) {c : Closure} (hc : c.scope.index < s.frames.size) :
    (s.newClosure c).2.Scoped where
  root := hs.root
  outer := hs.outer
  closures i d hd := by
    rcases getElem?_push_cases hd with hd | ⟨-, rfl⟩
    · exact hs.closures i d hd
    · exact hc

theorem Scoped.define (hs : s.Scoped) (r : FrameRef) (name : String) (v : Value) :
    (s.define r name v).Scoped where
  root := by
    obtain ⟨f, hf, ho⟩ := hs.root
    rcases getElem?_modify_of_some r.index hf with hg | hg
    · exact ⟨f, hg, ho⟩
    · exact ⟨_, hg, ho⟩
  outer i g hg hi := by
    obtain ⟨f, hf, rfl | ⟨-, rfl⟩⟩ := getElem?_modify_cases hg
    · exact hs.outer i g hf hi
    · exact hs.outer i f hf hi
  closures i c hc := by simpa [Store.define] using hs.closures i c hc

end Store

/-- Evaluation makes scopes only in scopes of the store, and functions too. -/
def Eval.Invariant.scoped : Eval.Invariant where
  store := Store.Scoped
  value _ _ := True
  scope s r := r.index < s.frames.size
  grows s t := s.frames.size ≤ t.frames.size
  grows_refl _ := Nat.le_refl _
  grows_trans := Nat.le_trans
  value_mono _ _ := trivial
  scope_mono h hr := Nat.lt_of_lt_of_le hr h
  atomic _ _ := trivial
  element _ _ := trivial
  entry _ _ := trivial
  lookup _ _ := trivial
  newArray hs _ := ⟨⟨hs.root, hs.outer, hs.closures⟩, Nat.le_refl _, trivial⟩
  newHash hs _ _ := ⟨⟨hs.root, hs.outer, hs.closures⟩, Nat.le_refl _, trivial⟩
  newClosure hs hc := ⟨hs.newClosure hc, Nat.le_refl _, trivial⟩
  newFrame hs hc := ⟨hs.newFrame (hs.closures _ _ hc), by simp [Store.newFrame], by simp [Store.newFrame]⟩
  define {_ r name v} hs _ _ := ⟨hs.define r name v, by simp [Store.define]⟩
  append hs _ _ := ⟨⟨hs.root, hs.outer, hs.closures⟩, Nat.le_refl _⟩

end MonkeyLang
