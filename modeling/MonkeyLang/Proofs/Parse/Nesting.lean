/-
Brackets and semicolons of derivable tokens. The productions open and close braces in pairs, except that
the end of the text may stand for the closing brace of a block. So what is derived before further tokens
has as many closing braces as opening ones, and tokens with all their braces closed can only end in a
semicolon if they end in a statement (`Derives.nested`).
-/
import MonkeyLang.Proofs.Parse.Grammar

namespace MonkeyLang

/-! ## Brackets -/

namespace Token

/-- The kind that closes an opening bracket. -/
def Kind.closer? : Kind → Option Kind
  | .leftParen => some .rightParen
  | .leftBracket => some .rightBracket
  | .leftBrace => some .rightBrace
  | _ => none

def Kind.isCloser (k : Kind) : Bool := k == .rightParen || k == .rightBracket || k == .rightBrace

/-- Whether each bracket is closed by one of its own sort, where brackets that are already open wait for
the given closing kinds, the innermost first. -/
def closes : List Kind → List Token → Bool
  | open_, [] => open_.isEmpty
  | open_, t :: ts =>
    match t.kind.closer? with
    | some k => closes (k :: open_) ts
    | none => if t.kind.isCloser then open_.head? == some t.kind && closes open_.tail ts else closes open_ ts

/-- The brackets are paired and properly nested. -/
def Balanced (ts : List Token) : Prop := closes [] ts = true

instance (ts : List Token) : Decidable (Balanced ts) := inferInstanceAs (Decidable (_ = _))

/-- What a kind adds to the number of open braces. -/
def Kind.brace : Kind → Int
  | .leftBrace => 1
  | .rightBrace => -1
  | _ => 0

/-- How many more braces the kinds open than they close. -/
def Kind.braces : List Kind → Int
  | [] => 0
  | k :: ks => k.brace + braces ks

def braces (ts : List Token) : Int := Kind.braces (ts.map Token.kind)

@[simp] theorem braces_nil : braces [] = 0 := rfl

@[simp] theorem braces_cons (t : Token) (ts : List Token) : braces (t :: ts) = t.kind.brace + braces ts := rfl

theorem brace_of_closer? {k c : Kind} (h : k.closer? = some c) : k.brace + c.brace = 0 := by
  cases k <;> cases h <;> rfl

theorem brace_of_not_isCloser {k : Kind} (h : k.closer? = none) (hc : k.isCloser = false) : k.brace = 0 := by
  revert h hc
  cases k <;> decide

theorem braces_of_closes {ks : List Kind} {ts : List Token} (h : closes ks ts = true) :
    braces ts = Kind.braces ks := by
  fun_induction closes ks ts with
  | case1 ks => rw [List.isEmpty_iff.1 h]; rfl
  | case2 ks t ts k hk ih =>
    have h' := ih h
    have := brace_of_closer? hk
    rw [Kind.braces] at h'
    rw [braces_cons]; omega
  | case3 ks t ts hk hc ih =>
    obtain ⟨hhead, htail⟩ := Bool.and_eq_true_iff.1 h
    obtain ⟨ks', rfl⟩ := List.head?_eq_some_iff.1 (beq_iff_eq.1 hhead)
    rw [braces_cons, ih htail, List.tail_cons, Kind.braces]
  | case4 ks t ts hk hc ih =>
    rw [braces_cons, ih h, brace_of_not_isCloser hk (by simpa using hc), Int.zero_add]

theorem Balanced.braces_eq_zero {ts : List Token} (h : Balanced ts) : braces ts = 0 := braces_of_closes h

end Token

/-! ## Productions -/

namespace Grammar

open Token

variable {α β : List Symbol} {ts rest : List Token}

def Symbol.brace : Symbol → Int
  | .kind k => k.brace
  | _ => 0

def brace : List Symbol → Int
  | [] => 0
  | s :: α => s.brace + brace α

/-- Whether a symbol may stand for no token. -/
def Symbol.isOptional : Symbol → Bool
  | .kind _ | .integer => false
  | .finish | .part _ => true

/-- Whether the last token of a part may be a semicolon, with the braces of the part closed. -/
def Category.endsInSemicolon : Category → Bool
  | .statements | .statement | .terminator => true
  | _ => false

def Symbol.endsInSemicolon : Symbol → Bool
  | .kind k => k == .semicolon
  | .part x => x.endsInSemicolon
  | .integer | .finish => false

def endsInSemicolon : List Symbol → Bool
  | [] => false
  | s :: α => endsInSemicolon α || (α.all Symbol.isOptional && s.endsInSemicolon)

@[simp] theorem brace_nil : brace [] = 0 := rfl

@[simp] theorem brace_cons (s : Symbol) (α : List Symbol) : brace (s :: α) = s.brace + brace α := rfl

/-- A production opens no more braces than it closes, unless it goes to the end of the text. -/
theorem brace_of_mem_rules {x : Category} (h : β ∈ rules x) :
    (brace β = 0 ∧ (endsInSemicolon β = true → x.endsInSemicolon = true)) ∨ (brace β = 1 ∧ .finish ∈ β) := by
  revert β
  cases x <;> decide

theorem illegal_not_mem_rules {x : Category} (h : β ∈ rules x) : Symbol.kind .illegal ∉ β := by
  revert β
  cases x <;> decide

/-! ## Derivations -/

theorem Yields.isOptional (h : Yields α ts rest) (hl : ts.length ≤ rest.length) :
    α.all Symbol.isOptional = true := by
  induction h with
  | nil => rfl
  | kind h ih =>
    have := h.suffix.length_le
    rw [List.length_cons] at hl; omega
  | integer hk hn h ih =>
    have := h.suffix.length_le
    rw [List.length_cons] at hl; omega
  | finish h ih => exact ih hl
  | part hβ hx ha h ihx ih => exact ih (Nat.le_trans hx.suffix.length_le hl)

theorem Yields.eq_nil_of_finish (h : Yields α ts rest) (hf : .finish ∈ α) : rest = [] := by
  induction h with
  | nil => cases hf
  | kind h ih => exact ih (by simpa using hf)
  | integer hk hn h ih => exact ih (by simpa using hf)
  | finish h ih => exact List.suffix_nil.1 h.suffix
  | part hβ hx ha h ihx ih => exact ih (by simpa using hf)

/-- Before `rest` stand tokens of which the last is no semicolon, unless the symbols `α` may end in one. -/
def EndsAs (α : List Symbol) (ts rest : List Token) : Prop :=
  ∃ p, ts = p ++ rest ∧ ∀ t ∈ p.getLast?, t.kind = .semicolon → endsInSemicolon α = true

theorem EndsAs.cons {s : Symbol} {q mid : List Token}
    (hs : ∀ t ∈ q.getLast?, t.kind = .semicolon → s.endsInSemicolon = true) (h : Yields α mid rest)
    (hα : EndsAs α mid rest) : EndsAs (s :: α) (q ++ mid) rest := by
  obtain ⟨p, rfl, hp⟩ := hα
  refine ⟨q ++ p, (List.append_assoc ..).symm, fun t ht hsemi => ?_⟩
  rw [List.getLast?_append, Option.mem_def, Option.or_eq_some_iff] at ht
  rcases ht with ht | ⟨hnil, ht⟩
  · simp [endsInSemicolon, hp t ht hsemi]
  · -- nothing was taken for `α`, so that its symbols are optional
    obtain rfl := List.getLast?_eq_none_iff.1 hnil
    simp [endsInSemicolon, h.isOptional (Nat.le_refl _), hs t ht hsemi]

/-- The braces of derived tokens are closed, or nothing comes after them. -/
theorem Yields.nested (h : Yields α ts rest) :
    (rest = [] ∧ brace α < braces ts) ∨ (braces ts = braces rest + brace α ∧ EndsAs α ts rest) := by
  induction h with
  | nil => exact .inr ⟨by simp, [], rfl, by simp⟩
  | @kind t ts rest α h ih =>
    rcases ih with ⟨rfl, hb⟩ | ⟨hb, he⟩
    · exact .inl ⟨rfl, by simpa [Symbol.brace] using hb⟩
    · refine .inr ⟨?_, .cons (q := [t]) ?_ h he⟩
      · simp only [braces_cons, brace_cons, Symbol.brace]; omega
      · simp [Symbol.endsInSemicolon]
  | @integer t ts rest α hk hn h ih =>
    have ht : t.kind.brace = 0 := by rw [hk]; rfl
    rcases ih with ⟨rfl, hb⟩ | ⟨hb, he⟩
    · exact .inl ⟨rfl, by simpa [Symbol.brace, ht] using hb⟩
    · refine .inr ⟨?_, .cons (q := [t]) ?_ h he⟩
      · simp only [braces_cons, brace_cons, Symbol.brace]; omega
      · simp [hk]
  | finish h ih =>
    rcases ih with ⟨rfl, hb⟩ | ⟨hb, he⟩
    · exact .inl ⟨rfl, by simpa [Symbol.brace] using hb⟩
    · exact .inr ⟨by simpa [Symbol.brace] using hb, .cons (q := []) (by simp) h he⟩
  | @part x ts mid rest α β hβ hx ha h ihx ih =>
    have hsym : brace (.part x :: α) = brace α := by simp [Symbol.brace]
    have hclosed : mid = [] → 0 < braces ts → rest = [] ∧ brace (.part x :: α) < braces ts := by
      rintro rfl hpos
      obtain rfl := List.suffix_nil.1 h.suffix
      rw [braces_nil] at ih
      exact ⟨rfl, by rw [hsym]; omega⟩
    rcases brace_of_mem_rules hβ with ⟨h₀, hends⟩ | ⟨h₁, hfin⟩
    · rcases ihx with ⟨rfl, hb⟩ | ⟨hb, q, rfl, hq⟩
      · exact .inl (hclosed rfl (by omega))
      · rw [hsym]
        rcases ih with ⟨rfl, hb'⟩ | ⟨hb', he⟩
        · exact .inl ⟨rfl, by omega⟩
        · exact .inr ⟨by omega, .cons (fun t ht hsemi => hends (hq t ht hsemi)) h he⟩
    · obtain rfl := hx.eq_nil_of_finish hfin
      rw [braces_nil] at ihx
      exact .inl (hclosed rfl (by omega))

theorem Derives.nested {x : Category} (h : Derives x ts rest) :
    (rest = [] ∧ 0 < braces ts) ∨ (braces ts = braces rest ∧ EndsAs [.part x] ts rest) := by
  obtain ⟨α, hα, hy, ha⟩ := h
  simpa [Symbol.brace] using (Yields.part hα hy ha .nil).nested

theorem Yields.kind_ne_illegal (h : Yields α ts rest) (hα : .kind .illegal ∉ α) :
    ∀ t ∈ ts, t ∈ rest ∨ t.kind ≠ .illegal := by
  induction h with
  | nil => exact fun t ht => .inl ht
  | kind h ih =>
    intro t ht
    rcases List.mem_cons.1 ht with rfl | ht
    · exact .inr fun hk => hα (by simp [hk])
    · exact ih (fun hm => hα (List.mem_cons_of_mem _ hm)) t ht
  | integer hk hn h ih =>
    intro t ht
    rcases List.mem_cons.1 ht with rfl | ht
    · exact .inr (by simp [hk])
    · exact ih (fun hm => hα (List.mem_cons_of_mem _ hm)) t ht
  | finish h ih => exact ih fun hm => hα (List.mem_cons_of_mem _ hm)
  | part hβ hx ha h ihx ih =>
    intro t ht
    rcases ihx (illegal_not_mem_rules hβ) t ht with ht | hk
    · exact ih (fun hm => hα (List.mem_cons_of_mem _ hm)) t ht
    · exact .inr hk

/-- No production has a place for a token that is illegal. -/
theorem Derives.kind_ne_illegal {x : Category} (h : Derives x ts []) : ∀ t ∈ ts, t.kind ≠ .illegal := by
  obtain ⟨α, hα, hy, -⟩ := h
  intro t ht
  simpa using hy.kind_ne_illegal (illegal_not_mem_rules hα) t ht

end Grammar

end MonkeyLang
