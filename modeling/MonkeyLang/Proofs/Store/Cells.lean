/-
The cells of a store (scopes, arrays, hashes and closures) and what can be reached from them. What a
cell leads to depends on its contents alone (`Leads.of_sameAt`), so that two stores which agree on all
that can be reached from a cell reach the same cells from it (`Reaches.of_agrees`).
-/
import MonkeyLang.Store.Basic
import Mathlib.Logic.Relation

namespace MonkeyLang

inductive Cell where
  | frame (r : FrameRef)
  | array (r : ArrayRef)
  | hash (r : HashRef)
  | closure (r : ClosureRef)
deriving DecidableEq

/-- The cell that a value refers to. -/
def Value.cell? : Value → Option Cell
  | .array r => some (.array r)
  | .hash r => some (.hash r)
  | .function r => some (.closure r)
  | _ => none

namespace Store

def Has (s : Store) : Cell → Prop
  | .frame r => r.index < s.frames.size
  | .array r => r.index < s.arrays.size
  | .hash r => r.index < s.hashes.size
  | .closure r => r.index < s.closures.size

/-- The cell has the same contents in both stores, or is missing from both. -/
def SameAt (s t : Store) : Cell → Prop
  | .frame r => s.frames[r.index]? = t.frames[r.index]?
  | .array r => s.arrays[r.index]? = t.arrays[r.index]?
  | .hash r => s.hashes[r.index]? = t.hashes[r.index]?
  | .closure r => s.closures[r.index]? = t.closures[r.index]?

variable {s t u : Store} {c d : Cell}

theorem SameAt.refl (s : Store) (c : Cell) : s.SameAt s c := by
  cases c <;> rfl

theorem SameAt.symm (h : s.SameAt t c) : t.SameAt s c := by
  cases c <;> exact Eq.symm h

theorem SameAt.trans (h : s.SameAt t c) (h' : t.SameAt u c) : s.SameAt u c := by
  cases c <;> exact Eq.trans h h'

theorem sameAt_of_not_has (hs : ¬ s.Has c) (ht : ¬ t.Has c) : s.SameAt t c := by
  cases c <;> exact (Array.getElem?_eq_none (Nat.not_lt.1 hs)).trans (Array.getElem?_eq_none (Nat.not_lt.1 ht)).symm

/-! ## Steps from cell to cell -/

/-- The contents of `c` refer to `d`. -/
inductive Leads (s : Store) : Cell → Cell → Prop where
  | outer {r o : FrameRef} {f : Frame} (hf : s.frames[r.index]? = some f) (ho : f.outer = some o) :
    Leads s (.frame r) (.frame o)
  | binding {r : FrameRef} {f : Frame} {b : String × Value} {d : Cell} (hf : s.frames[r.index]? = some f)
    (hb : b ∈ f.bindings) (hd : b.2.cell? = some d) : Leads s (.frame r) d
  | element {r : ArrayRef} {a : Array Value} {v : Value} {d : Cell} (ha : s.arrays[r.index]? = some a)
    (hv : v ∈ a) (hd : v.cell? = some d) : Leads s (.array r) d
  | key {r : HashRef} {h : Hash} {e : HashKey × HashPair} {d : Cell} (hh : s.hashes[r.index]? = some h)
    (he : e ∈ h.entries) (hd : e.2.key.cell? = some d) : Leads s (.hash r) d
  | value {r : HashRef} {h : Hash} {e : HashKey × HashPair} {d : Cell} (hh : s.hashes[r.index]? = some h)
    (he : e ∈ h.entries) (hd : e.2.value.cell? = some d) : Leads s (.hash r) d
  | scope {r : ClosureRef} {x : Closure} (hx : s.closures[r.index]? = some x) :
    Leads s (.closure r) (.frame x.scope)

theorem Leads.has (h : s.Leads c d) : s.Has c := by
  cases h with
  | outer hf _ => exact (Array.getElem?_eq_some_iff.1 hf).1
  | binding hf _ _ => exact (Array.getElem?_eq_some_iff.1 hf).1
  | element ha _ _ => exact (Array.getElem?_eq_some_iff.1 ha).1
  | key hh _ _ => exact (Array.getElem?_eq_some_iff.1 hh).1
  | value hh _ _ => exact (Array.getElem?_eq_some_iff.1 hh).1
  | scope hx => exact (Array.getElem?_eq_some_iff.1 hx).1

theorem Leads.of_sameAt (hst : s.SameAt t c) (h : s.Leads c d) : t.Leads c d := by
  cases h with
  | outer hf ho => exact .outer (Eq.trans (Eq.symm hst) hf) ho
  | binding hf hb hd => exact .binding (Eq.trans (Eq.symm hst) hf) hb hd
  | element ha hv hd => exact .element (Eq.trans (Eq.symm hst) ha) hv hd
  | key hh he hd => exact .key (Eq.trans (Eq.symm hst) hh) he hd
  | value hh he hd => exact .value (Eq.trans (Eq.symm hst) hh) he hd
  | scope hx => exact .scope (Eq.trans (Eq.symm hst) hx)

/-! ## Reachable cells -/

/-- From `c` one gets to `d` through bindings, outer scopes, elements, entries and the scopes of
functions, in any number of steps. -/
def Reaches (s : Store) : Cell → Cell → Prop := Relation.ReflTransGen s.Leads

/-- The stores have the same cells, and those that can be reached from `roots` have the same contents. -/
structure Agrees (s t : Store) (roots : Cell → Prop) : Prop where
  has_iff : ∀ c, s.Has c ↔ t.Has c
  same : ∀ r c, roots r → s.Reaches r c → s.SameAt t c

theorem Reaches.of_agrees {roots : Cell → Prop} (h : s.Agrees t roots) (hc : roots c) (hd : s.Reaches c d) :
    t.Reaches c d := by
  induction hd with
  | refl => exact .refl
  | tail hcd hde ih => exact ih.tail (hde.of_sameAt (h.same c _ hc hcd))

/-- A set of cells that no step leads out of holds all that can be reached from it. -/
theorem Reaches.of_closed {P : Cell → Prop} (hP : ∀ c d, P c → s.Leads c d → P d) (hc : P c)
    (h : s.Reaches c d) : P d := by
  induction h with
  | refl => exact hc
  | tail _ hde ih => exact hP _ _ ih hde

end Store

end MonkeyLang
