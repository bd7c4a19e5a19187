/-
What holds of the cursor before and after reading: `Triple P p Q R` says that from a cursor with `P` the
parser `p` ends with `Q` if it yields something, and with `R` if it gives up. One rule a combinator, so
that a fact about a rule of the grammar is put together in the order in which the rule reads.
-/
import MonkeyLang.Proofs.Parse.Clean

namespace MonkeyLang.Parser

variable {α β : Type} {P P' R R' : Cursor → Prop} {Q Q' : α → Cursor → Prop} {S : β → Cursor → Prop}

/-- How a run ends: `Q` of what was read and the cursor behind it, or `R` of the cursor alone. -/
def Ends (Q : α → Cursor → Prop) (R : Cursor → Prop) : Option α × Cursor → Prop
  | (some a, c) => Q a c
  | (none, c) => R c

def Triple (P : Cursor → Prop) (p : Parser α) (Q : α → Cursor → Prop) (R : Cursor → Prop) : Prop :=
  ∀ c, P c → Ends Q R (p.run c)

theorem Ends.imp {x : Option α × Cursor} (h : Ends Q R x) (hQ : ∀ a c, Q a c → Q' a c) (hR : ∀ c, R c → R' c) :
    Ends Q' R' x := by
  obtain ⟨_ | a, c⟩ := x
  · exact hR c h
  · exact hQ a c h

theorem Triple.weaken {p : Parser α} (h : Triple P p Q R) (hP : ∀ c, P' c → P c)
    (hQ : ∀ a c, Q a c → Q' a c) (hR : ∀ c, R c → R' c) : Triple P' p Q' R' :=
  fun c hc => (h c (hP c hc)).imp hQ hR

theorem Triple.of_pre {p : Parser α} (h : Triple P p Q R) (hP : ∀ c, P' c → P c) : Triple P' p Q R :=
  h.weaken hP (fun _ _ hq => hq) fun _ hr => hr

/-- Nothing has to be shown of a parser that is never reached. -/
theorem triple_false {p : Parser α} : Triple (fun _ => False) p Q R := fun _ h => h.elim

theorem Triple.bind {p : Parser α} {f : α → Parser β} (hp : Triple P p Q R)
    (hf : ∀ a, Triple (Q a) (f a) S R) : Triple P (p >>= f) S R := by
  intro c hc
  have hend := hp c hc
  rw [run_bind]
  generalize p.run c = x at hend
  obtain ⟨_ | a, c'⟩ := x
  · exact hend
  · exact hf a c' hend

theorem triple_pure {a : α} (h : ∀ c, P c → Q a c) : Triple P (pure a) Q R := h

theorem triple_ite {b : Prop} [Decidable b] {p q : Parser α} (hp : b → Triple P p Q R)
    (hq : ¬ b → Triple P q Q R) : Triple P (if b then p else q) Q R := by
  split
  · next h => exact hp h
  · next h => exact hq h

/-- A lawful parser does not move back. -/
theorem Triple.unread_le {p : Parser α} [hp : Lawful p] {n : Nat} (h : Triple P p Q R) :
    Triple (fun c => P c ∧ c.unread ≤ n) p (fun a c => Q a c ∧ c.unread ≤ n) fun c => R c ∧ c.unread ≤ n := by
  rintro c ⟨hc, hn⟩
  have hend := h c hc
  have hle : (p.run c).2.unread ≤ n := Nat.le_trans (hp.moves_on c).length_le hn
  generalize p.run c = x at hend hle
  obtain ⟨_ | a, c'⟩ := x
  · exact ⟨hend, hle⟩
  · exact ⟨hend, hle⟩

/-! ## Looking -/

theorem triple_current {f : Token → Parser α} (hf : ∀ t, Triple (fun c => P c ∧ c.current = t) (f t) Q R) :
    Triple P (current >>= f) Q R :=
  fun c hc => hf c.current c ⟨hc, rfl⟩

theorem triple_nextIs {k : Token.Kind} {f : Bool → Parser α}
    (hyes : Triple (fun c => P c ∧ c.peek.kind = k) (f true) Q R)
    (hno : Triple (fun c => P c ∧ c.peek.kind ≠ k) (f false) Q R) : Triple P (nextIs k >>= f) Q R := by
  intro c hc
  show Ends Q R ((f (c.peek.kind == k)).run c)
  by_cases hk : c.peek.kind = k
  · rw [beq_iff_eq.2 hk]
    exact hyes c ⟨hc, hk⟩
  · rw [beq_eq_false_iff_ne.2 hk]
    exact hno c ⟨hc, hk⟩

theorem triple_unread {f : Nat → Parser α} (hf : ∀ n, Triple P (f n) Q R) : Triple P (unread >>= f) Q R :=
  fun c hc => hf c.unread c hc

/-! ## Moving -/

theorem triple_advance {f : Unit → Parser α} (hP : ∀ c, P c → P' c.advance) (hf : Triple P' (f ()) Q R) :
    Triple P (advance >>= f) Q R :=
  fun c hc => hf c.advance (hP c hc)

theorem triple_expect {k : Token.Kind} {S : Unit → Cursor → Prop}
    (hyes : ∀ c, P c → c.peek.kind = k → S () c.advance)
    (hno : ∀ c, P c → R (c.report (.expected k c.peek.kind) c.peek)) : Triple P (expect k) S R := by
  intro c hc
  simp only [run, expect]
  split
  · next hk => exact hyes c hc hk
  · exact hno c hc

theorem triple_fail {cause : Token → ParseError.Cause}
    (h : ∀ c, P c → R (c.report (cause c.current) c.current)) : Triple P (fail cause : Parser α) Q R := h

theorem triple_attempt {p : Parser α} {f : Option α → Parser β} (hp : Triple P p Q R)
    (hsome : ∀ a, Triple (Q a) (f (some a)) S R') (hnone : Triple R (f none) S R') :
    Triple P (attempt p >>= f) S R' := by
  intro c hc
  have hend := hp c hc
  show Ends S R' ((f (p.run c).1).run (p.run c).2)
  generalize p.run c = x at hend
  obtain ⟨_ | a, c'⟩ := x
  · exact hnone c' hend
  · exact hsome a c' hend

end MonkeyLang.Parser
