/-
Runs of a parser that record no error. Every rule of the grammar is lawful: it never moves back,
never forgets an error, and yields nothing only after recording one (`Lawful`). Hence a run is clean
exactly when all its parts are, and a clean run can be told by the tokens alone: `Reads n es p ts a ts'`
says that `p` turns the unread tokens `ts` into `a` and leaves the tokens `ts'`.
-/
import MonkeyLang.Parse.Expression
import Mathlib.Tactic.Common

namespace MonkeyLang

/-- The kind of the first token, as the end of the text if there is none. -/
def headKind : List Token → Token.Kind
  | [] => .endOfInput
  | t :: _ => t.kind

/-- The literal of the first token, if there is one. -/
def headLiteral : List Token → String
  | [] => ""
  | t :: _ => t.literal

@[simp] theorem headKind_nil : headKind [] = .endOfInput := rfl

@[simp] theorem headKind_cons (t : Token) (ts : List Token) : headKind (t :: ts) = t.kind := rfl

@[simp] theorem kind_headD (ts : List Token) (n : Nat) :
    (ts.headD (Token.endAt n)).kind = headKind ts := by
  cases ts <;> rfl

@[simp] theorem headLiteral_cons (t : Token) (ts : List Token) :
    headLiteral (t :: ts) = t.literal := rfl

@[simp] theorem literal_headD (ts : List Token) (n : Nat) :
    (ts.headD (Token.endAt n)).literal = headLiteral ts := by
  cases ts <;> rfl

theorem exists_cons_of_headKind {ts : List Token} {k : Token.Kind} (h : headKind ts = k)
    (hk : k ≠ .endOfInput) : ∃ t, t.kind = k ∧ ts = t :: ts.tail := by
  cases ts with
  | nil => exact absurd h.symm hk
  | cons t ts => exact ⟨t, h, rfl⟩

theorem length_tail_lt {ts : List Token} (h : headKind ts ≠ .endOfInput) :
    ts.tail.length < ts.length := by
  cases ts with
  | nil => exact absurd rfl h
  | cons t ts => simp

namespace Cursor

/-! ## The tokens ahead -/

theorem current_mem (c : Cursor) : c.current ∈ c.tokens ++ [c.last] := by
  unfold current
  cases c.tokens <;> simp

theorem peek_mem (c : Cursor) : c.peek ∈ c.tokens ++ [c.last] := by
  unfold peek
  rcases c.tokens with _ | ⟨a, _ | ⟨b, us⟩⟩ <;> simp

theorem advance_suffix (c : Cursor) : c.advance.tokens ++ [c.advance.last] <:+ c.tokens ++ [c.last] := by
  cases hc : c.tokens with
  | nil => simp [advance, hc]
  | cons t us => exact ⟨[t], by simp [advance, hc]⟩

/-! ## Where no token is left -/

theorem current_eq_last {c : Cursor} (h : c.unread = 0) : c.current = c.last := by
  rw [current, List.length_eq_zero_iff.1 h, List.headD_nil]

theorem peek_eq_last {c : Cursor} (h : c.unread = 0) : c.peek = c.last := by
  rw [peek, List.length_eq_zero_iff.1 h, List.tail_nil, List.headD_nil]

theorem advance_eq_self {c : Cursor} (h : c.unread = 0) : c.advance = c := by
  have hnil := List.length_eq_zero_iff.1 h
  rw [advance, hnil, List.tail_nil, ← hnil]

end Cursor

namespace Parser

variable {α β : Type}

theorem run_expect_eq_some {k : Token.Kind} {c d : Cursor} {u : Unit} (h : (expect k).run c = (some u, d)) :
    c.peek.kind = k ∧ c.advance = d := by
  simp only [run, expect] at h
  split at h
  · next hk => exact ⟨hk, (Prod.mk.inj h).2⟩
  · cases h

/-! ## Lawful parsers -/

class Lawful (p : Parser α) : Prop where
  errors_grow : ∀ c, c.errors <+: (p.run c).2.errors
  error_of_none : ∀ c, (p.run c).1 = none → (p.run c).2.errors ≠ c.errors
  moves_on : ∀ c, (p.run c).2.tokens <:+ c.tokens
  last_eq : ∀ c, (p.run c).2.last = c.last

/-- A step that looks, or moves on, and always yields something. -/
theorem Lawful.of_run {p : Parser α} {f : Cursor → α} {g : List Token → List Token}
    (h : ∀ c, p.run c = (some (f c), { c with tokens := g c.tokens }))
    (hg : ∀ ts, g ts <:+ ts) : Lawful p where
  errors_grow c := by simp [h c]
  error_of_none c := by rw [h c]; simp
  moves_on c := by rw [h c]; exact hg _
  last_eq c := by rw [h c]

instance lawful_pure (a : α) : Lawful (pure a : Parser α) :=
  .of_run (fun _ => rfl) List.suffix_refl

instance lawful_current : Lawful current := .of_run (fun _ => rfl) List.suffix_refl

instance lawful_peek : Lawful peek := .of_run (fun _ => rfl) List.suffix_refl

instance lawful_nextIs (k : Token.Kind) : Lawful (nextIs k) :=
  .of_run (fun _ => rfl) List.suffix_refl

instance lawful_unread : Lawful unread := .of_run (fun _ => rfl) List.suffix_refl

instance lawful_advance : Lawful advance :=
  .of_run (fun _ => rfl) fun ts => List.tail_suffix ts

instance lawful_fail (cause : Token → ParseError.Cause) : Lawful (fail cause : Parser α) where
  errors_grow c := List.prefix_append ..
  error_of_none c _ := by simp [fail, run, Cursor.report]
  moves_on c := List.suffix_refl _
  last_eq c := rfl

instance lawful_noOperand : Lawful (noOperand : Parser α) := lawful_fail _

instance lawful_expect (k : Token.Kind) : Lawful (expect k) where
  errors_grow c := by
    simp only [run, expect]; split
    · exact List.prefix_refl _
    · exact List.prefix_append ..
  error_of_none c := by
    simp only [run, expect]; split <;> simp [Cursor.report]
  moves_on c := by
    simp only [run, expect]; split
    · exact List.tail_suffix _
    · exact List.suffix_refl _
  last_eq c := by
    simp only [run, expect]; split <;> rfl

instance lawful_attempt (p : Parser α) [hp : Lawful p] : Lawful (attempt p) where
  errors_grow c := hp.errors_grow c
  error_of_none c h := by cases h
  moves_on c := hp.moves_on c
  last_eq c := hp.last_eq c

instance lawful_bind (p : Parser α) (f : α → Parser β) [hp : Lawful p] [hf : ∀ a, Lawful (f a)] :
    Lawful (p >>= f) where
  errors_grow c := by
    have h := hp.errors_grow c
    rw [run_bind]
    generalize p.run c = r at h
    obtain ⟨_ | a, c'⟩ := r
    · exact h
    · exact h.trans ((hf a).errors_grow c')
  error_of_none c := by
    have h := hp.errors_grow c
    have hn := hp.error_of_none c
    rw [run_bind]
    generalize p.run c = r at h hn
    obtain ⟨_ | a, c'⟩ := r
    · exact fun _ => hn rfl
    · intro h' e
      -- the first part may not have added an error that the second one took back
      have hc := (hf a).errors_grow c'
      simp only at e
      rw [e] at hc
      have he : c.errors = c'.errors := h.eq_of_length_le hc.length_le
      exact (hf a).error_of_none c' h' (e.trans he)
  moves_on c := by
    have h := hp.moves_on c
    rw [run_bind]
    generalize p.run c = r at h
    obtain ⟨_ | a, c'⟩ := r
    · exact h
    · exact ((hf a).moves_on c').trans h
  last_eq c := by
    have h := hp.last_eq c
    rw [run_bind]
    generalize p.run c = r at h
    obtain ⟨_ | a, c'⟩ := r
    · exact h
    · exact ((hf a).last_eq c').trans h

instance lawful_ite (b : Prop) [Decidable b] (p q : Parser α) [Lawful p] [Lawful q] :
    Lawful (if b then p else q) := by
  split <;> infer_instance

/-! ## Clean runs -/

/-- On a text of `n` bytes, and after the errors `es`, the tokens `ts` are read as `a` up to `ts'`
without a further error. The first token of `ts'` is the last one that was read. -/
def Reads (n : Nat) (es : List ParseError) (p : Parser α) (ts : List Token) (a : α)
    (ts' : List Token) : Prop :=
  p.run ⟨ts, .endAt n, es⟩ = (some a, ⟨ts', .endAt n, es⟩)

variable {n : Nat} {es : List ParseError} {ts ts' : List Token}

theorem Reads.suffix {p : Parser α} [hp : Lawful p] {a : α} (h : Reads n es p ts a ts') :
    ts' <:+ ts := by
  have hm := hp.moves_on ⟨ts, .endAt n, es⟩
  rwa [h] at hm

/-- A run is clean exactly when it ends with the errors that it began with. -/
theorem exists_reads_iff (p : Parser α) [hp : Lawful p] :
    (∃ a ts', Reads n es p ts a ts') ↔ (p.run ⟨ts, .endAt n, es⟩).2.errors = es := by
  constructor
  · rintro ⟨a, ts', h⟩
    rw [h]
  · intro h
    have hl := hp.last_eq ⟨ts, .endAt n, es⟩
    have hn := hp.error_of_none ⟨ts, .endAt n, es⟩
    unfold Reads
    generalize p.run ⟨ts, .endAt n, es⟩ = r at h hl hn
    obtain ⟨_ | a, ts', l, es'⟩ := r
    · exact absurd h (hn rfl)
    · simp only at h hl
      subst h; subst hl
      exact ⟨a, ts', rfl⟩

theorem reads_bind (p : Parser α) (f : α → Parser β) [hp : Lawful p] [hf : ∀ a, Lawful (f a)]
    {b : β} :
    Reads n es (p >>= f) ts b ts' ↔ ∃ a ts₁, Reads n es p ts a ts₁ ∧ Reads n es (f a) ts₁ b ts' := by
  constructor
  · intro h
    -- the errors after the first part lie between those before and those at the end
    have he := hp.errors_grow ⟨ts, .endAt n, es⟩
    have hl := hp.last_eq ⟨ts, .endAt n, es⟩
    unfold Reads at h ⊢
    rw [run_bind] at h
    generalize p.run ⟨ts, .endAt n, es⟩ = r at h he hl
    obtain ⟨_ | a, ts₁, l, es₁⟩ := r
    · cases h
    · simp only at h he hl
      subst hl
      have he' := (hf a).errors_grow ⟨ts₁, .endAt n, es₁⟩
      rw [h] at he'
      obtain rfl := he.eq_of_length_le he'.length_le
      exact ⟨a, ts₁, rfl, h⟩
  · rintro ⟨a, ts₁, h₁, h₂⟩
    exact (run_bind_some h₁ f).trans h₂

@[simp] theorem reads_pure {a b : α} : Reads n es (pure a) ts b ts' ↔ b = a ∧ ts' = ts := by
  simp [Reads, eq_comm]

@[simp] theorem reads_current {t : Token} :
    Reads n es current ts t ts' ↔ t = ts.headD (.endAt n) ∧ ts' = ts := by
  simp [Reads, current, run, Cursor.current, eq_comm]

@[simp] theorem reads_nextIs {k : Token.Kind} {b : Bool} :
    Reads n es (nextIs k) ts b ts' ↔ b = (headKind ts.tail == k) ∧ ts' = ts := by
  simp only [Reads, nextIs, run, Cursor.peek, kind_headD]
  simp [eq_comm]

@[simp] theorem reads_unread {m : Nat} :
    Reads n es unread ts m ts' ↔ m = ts.length ∧ ts' = ts := by
  simp [Reads, unread, run, Cursor.unread, eq_comm]

@[simp] theorem reads_advance {u : Unit} : Reads n es advance ts u ts' ↔ ts' = ts.tail := by
  simp [Reads, advance, run, Cursor.advance, eq_comm]

@[simp] theorem reads_expect {k : Token.Kind} {u : Unit} :
    Reads n es (expect k) ts u ts' ↔ headKind ts.tail = k ∧ ts' = ts.tail := by
  simp only [Reads, expect, run, Cursor.peek, kind_headD]
  split
  · simp_all [Cursor.advance, eq_comm]
  · simp_all

@[simp] theorem not_reads_fail {cause : Token → ParseError.Cause} {a : α} :
    ¬ Reads n es (fail cause) ts a ts' := by
  simp [Reads, fail, run]

@[simp] theorem not_reads_noOperand {a : α} : ¬ Reads n es noOperand ts a ts' := not_reads_fail

@[simp] theorem reads_attempt (p : Parser α) [hp : Lawful p] {o : Option α} :
    Reads n es (attempt p) ts o ts' ↔ ∃ a, o = some a ∧ Reads n es p ts a ts' := by
  have hn := hp.error_of_none ⟨ts, .endAt n, es⟩
  simp only [Reads, attempt, run] at hn ⊢
  generalize p ⟨ts, .endAt n, es⟩ = r at hn
  obtain ⟨_ | a, c⟩ := r
  · have hn := hn rfl
    constructor
    · rintro ⟨⟩; exact absurd rfl hn
    · rintro ⟨a, -, h⟩; cases h
  · constructor
    · rintro ⟨⟩; exact ⟨a, rfl, rfl⟩
    · rintro ⟨b, rfl, ⟨⟩⟩; rfl

@[simp] theorem reads_ite {b : Prop} [Decidable b] {p q : Parser α} {a : α} :
    Reads n es (if b then p else q) ts a ts' ↔
      (b ∧ Reads n es p ts a ts') ∨ (¬ b ∧ Reads n es q ts a ts') := by
  split <;> simp_all

end Parser

end MonkeyLang
