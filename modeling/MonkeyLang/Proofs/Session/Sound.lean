/-
The stores of a session are sound, also after programs that end in an error (`reached_stores_are_sound`):
whatever a cell refers to is in the store, scopes lead out to the global scope, hashes cannot be made to
hold themselves unless through an array or a scope, and each pair of a hash is found under its own key.
-/
import MonkeyLang.Proofs.Session.Reached
import MonkeyLang.Proofs.Store.Cells
import MonkeyLang.Proofs.Store.Reachable
import MonkeyLang.Proofs.Store.Scopes

namespace MonkeyLang

/-- Arrays and scopes can be changed after they were made; hashes and functions cannot. -/
def Cell.IsMutable : Cell → Prop
  | .frame _ | .array _ => True
  | .hash _ | .closure _ => False

namespace Store

structure Sound (s : Store) : Prop where
  /-- All references lead to cells of the store. -/
  allocated : ∀ c d, s.Leads c d → s.Has d
  scopes : ∀ r, s.Has (.frame r) → s.LeadsOut r
  captured : ∀ (i : Nat) (c : Closure), s.closures[i]? = some c → s.LeadsOut c.scope
  nested : WellFounded fun h g : HashRef => s.Leads (.hash g) (.hash h)
  /-- Every cycle of references passes through an array or a scope. -/
  cycles : ∀ c, ¬ Relation.TransGen (fun c d => s.Leads c d ∧ ¬ c.IsMutable) c c
  keyed : ∀ (i : Nat) (h : Hash), s.hashes[i]? = some h → h.Keyed
  keys : ∀ (i : Nat) (h : Hash), s.hashes[i]? = some h → (h.entries.map Prod.fst).Nodup

variable {s : Store} {c d : Cell}

/-! ## References -/

theorem has_of_cell? {v : Value} (hv : s.HasValue v) (hd : v.cell? = some d) : s.Has d := by
  cases v <;> cases hd <;> exact hv

theorem WF.has_of_leads (hs : s.WF) (hscoped : s.Scoped) (h : s.Leads c d) : s.Has d := by
  cases h with
  | @outer r o f hf ho =>
    have hr := (Array.getElem?_eq_some_iff.1 hf).1
    by_cases hi : r.index = 0
    · obtain ⟨g, hg, hnone⟩ := hscoped.root
      rw [hi, hg] at hf
      cases hf
      rw [hnone] at ho
      cases ho
    · obtain ⟨o', ho', hlt⟩ := hscoped.outer r.index f hf (by omega)
      cases ho.symm.trans ho'
      exact Nat.lt_trans hlt hr
  | binding hf hb hd => exact has_of_cell? (hs.bindings _ _ hf _ hb) hd
  | element ha hv hd => exact has_of_cell? (hs.elements _ _ ha _ hv) hd
  | key hh he hd => exact has_of_cell? (hs.entries _ _ hh _ he).1 hd
  | value hh he hd => exact has_of_cell? (hs.entries _ _ hh _ he).2 hd
  | scope hx => exact hscoped.closures _ _ hx

/-! ## Cycles -/

/-- How far references can go on from a cell through hashes and functions alone. -/
def rank : Cell → Nat
  | .frame _ | .array _ => 0
  | .closure _ => 1
  | .hash r => r.index + 2

/-- A hash refers to older hashes only, and a function to a scope. -/
theorem WF.rank_lt (hs : s.WF) (h : s.Leads c d) (hc : ¬ c.IsMutable) : rank d < rank c := by
  have hentry : ∀ {r : HashRef} {x : Hash} {e : HashKey × HashPair} {v : Value}, s.hashes[r.index]? = some x →
      e ∈ x.entries → e.2.key = v ∨ e.2.value = v → v.cell? = some d → rank d < r.index + 2 := by
    intro r x e v hx he hv hd
    cases v <;> cases hd
    · simp [rank]
    · next q =>
      have hlt : q.index < r.index := hs.nested _ x hx e he q hv
      simp only [rank]
      omega
    · simp only [rank]
      omega
  cases h with
  | outer => exact absurd trivial hc
  | binding => exact absurd trivial hc
  | element => exact absurd trivial hc
  | key hh he hd => exact hentry hh he (.inl rfl) hd
  | value hh he hd => exact hentry hh he (.inr rfl) hd
  | scope hx => exact Nat.zero_lt_one

theorem WF.not_cycle (hs : s.WF) (c : Cell) :
    ¬ Relation.TransGen (fun c d => s.Leads c d ∧ ¬ c.IsMutable) c c := by
  have hlt : ∀ d, Relation.TransGen (fun c d => s.Leads c d ∧ ¬ c.IsMutable) c d → rank d < rank c := by
    intro d h
    induction h with
    | single h => exact hs.rank_lt h.1 h.2
    | tail _ h ih => exact Nat.lt_trans (hs.rank_lt h.1 h.2) ih
  exact fun h => Nat.lt_irrefl _ (hlt c h)

theorem WF.wellFounded_nested (hs : s.WF) : WellFounded fun h g : HashRef => s.Leads (.hash g) (.hash h) :=
  Subrelation.wf (fun h => hs.rank_lt h id) (InvImage.wf (fun r : HashRef => rank (.hash r)) Nat.lt_wfRel.wf)

theorem WF.sound (hs : s.WF) (hscoped : s.Scoped)
    (hkeyed : ∀ (i : Nat) (h : Hash), s.hashes[i]? = some h → h.Keyed) : s.Sound where
  allocated _ _ h := hs.has_of_leads hscoped h
  scopes _ hr := hscoped.leadsOut hr
  captured i c hc := hscoped.leadsOut (hscoped.closures i c hc)
  nested := hs.wellFounded_nested
  cycles := hs.not_cycle
  keyed := hkeyed
  keys := hs.keys

end Store

/-! ## Sessions -/

/-- A hash is made with each pair under its own key, and never changed. -/
def Eval.Invariant.keyed : Eval.Invariant where
  store s := ∀ (i : Nat) (h : Hash), s.hashes[i]? = some h → h.Keyed
  value _ _ := True
  scope _ _ := True
  grows _ _ := True
  grows_refl _ := trivial
  grows_trans _ _ := trivial
  value_mono _ _ := trivial
  scope_mono _ _ := trivial
  atomic _ _ := trivial
  element _ _ := trivial
  entry _ _ := trivial
  lookup _ _ := trivial
  newArray hs _ := ⟨hs, trivial, trivial⟩
  newHash hs _ hk := by
    refine ⟨fun i x hx => ?_, trivial, trivial⟩
    rcases Store.getElem?_push_cases hx with hx | ⟨-, rfl⟩
    · exact hs i x hx
    · exact hk
  newClosure hs _ := ⟨hs, trivial, trivial⟩
  newFrame hs _ := ⟨hs, trivial, trivial⟩
  define hs _ _ := ⟨hs, trivial⟩
  append hs _ _ := ⟨hs, trivial⟩

namespace Machine

/-- The store is sound in every state of a session. -/
theorem reached_stores_are_sound {m : Machine} (h : m.Reached) : m.store.Sound := by
  have hwf : m.store.WF := h.invariant .wf Store.wf_initial fun _ _ => trivial
  have hscoped : m.store.Scoped := h.invariant .scoped Store.scoped_initial fun _ hs => hs.size_pos
  have hkeyed : ∀ (i : Nat) (h : Hash), m.store.hashes[i]? = some h → h.Keyed := by
    refine h.invariant .keyed (fun i h hh => ?_) fun _ _ => trivial
    simp [Store.initial] at hh
  exact hwf.sound hscoped hkeyed

/-- `let xs = []; let h = {1: {2: push(xs, xs)}}; let f = fn(x) { fn() { x } }; f(h) + f(xs);` -/
def entangled : Program :=
  ⟨[.bind "xs" (.array []),
    .bind "h" (.hash [(.int 1, .hash [(.int 2, .call (.ident "push") [.ident "xs", .ident "xs"])])]),
    .bind "f" (.function ["x"] [.expr (.function [] [.expr (.ident "x")])]),
    .expr (.binary .add (.call (.ident "f") [.ident "h"]) (.call (.ident "f") [.ident "xs"]))]⟩

/-- The program makes an array that holds itself, a hash in a hash and functions in scopes of their own, and
then fails. -/
theorem reached_stores_are_sound_entangled : ∃ m,
    Machine.initial.runProgram 5 entangled = some (.error (.noBinary .function .add .function), m) ∧
    m.Reached ∧ m.store.elements ⟨0⟩ = #[.array ⟨0⟩] ∧ m.store.hashes.size = 2 ∧
    (m.store.closure? ⟨2⟩).map Closure.scope = some ⟨2⟩ ∧ m.store.Sound := by
  obtain ⟨m, hrun, hm⟩ : ∃ m,
      Machine.initial.runProgram 5 entangled = some (.error (.noBinary .function .add .function), m) ∧
      m.store.elements ⟨0⟩ = #[.array ⟨0⟩] ∧ m.store.hashes.size = 2 ∧
      (m.store.closure? ⟨2⟩).map Closure.scope = some ⟨2⟩ := ⟨_, rfl, rfl, rfl, rfl⟩
  have hreached : m.Reached := .program .initial hrun
  exact ⟨m, hrun, hreached, hm.1, hm.2.1, hm.2.2, reached_stores_are_sound hreached⟩

end Machine

end MonkeyLang
