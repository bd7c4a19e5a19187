/-
Reading a text token by token: what one step of the reader does, and that the tokens of a text close
with the token for its end, the only one of that kind.
-/
import MonkeyLang.Token.Scan
import Mathlib.Data.List.TakeWhile
import Mathlib.Tactic.Common

namespace MonkeyLang.Token

open Text (byteLength byteLength_append)

/-! ## Character classes -/

theorem isLayout_of_isLetter {c : Char} (h : isLetter c = true) : isLayout c = false := by
  cases hl : isLayout c with
  | false => rfl
  | true =>
    simp only [isLayout, Bool.or_eq_true, beq_iff_eq] at hl
    obtain (((rfl | rfl) | rfl) | rfl) | rfl := hl <;> exact absurd h (by decide)

theorem isLayout_of_isDigit {c : Char} (h : isDigit c = true) : isLayout c = false := by
  cases hl : isLayout c with
  | false => rfl
  | true =>
    simp only [isLayout, Bool.or_eq_true, beq_iff_eq] at hl
    obtain (((rfl | rfl) | rfl) | rfl) | rfl := hl <;> exact absurd h (by decide)

theorem isLetter_of_isDigit {c : Char} (h : isDigit c = true) : isLetter c = false := by
  simp only [isDigit, Bool.and_eq_true, decide_eq_true_eq, Char.le_def, UInt32.le_iff_toNat_le] at h
  simp only [isLetter, Bool.or_eq_false_iff, Bool.and_eq_false_iff, decide_eq_false_iff_not, Char.le_def,
    UInt32.le_iff_toNat_le, beq_eq_false_iff_ne, ne_eq]
  refine ⟨⟨.inl ?_, .inl ?_⟩, ?_⟩
  · intro h'; have := Nat.le_trans h' h.2; revert this; decide
  · intro h'; have := Nat.le_trans h' h.2; revert this; decide
  · rintro rfl; exact absurd h.2 (by decide)

/-! ## Runs -/

theorem takeWhile_append_of_head {p : Char → Bool} {bs : List Char} (hb : ∀ c ∈ bs.head?, p c = false)
    (as : List Char) :
    (as ++ bs).takeWhile p = as.takeWhile p ∧ (as ++ bs).dropWhile p = as.dropWhile p ++ bs := by
  induction as with
  | nil =>
    cases bs with
    | nil => simp
    | cons b bs => simp [hb b rfl]
  | cons a as ih => cases h : p a <;> simp [h, ih.1, ih.2]

/-- A run of a class of characters ends where a character of another class comes next. -/
theorem takeWhile_run {p : Char → Bool} {run post : List Char} (hr : ∀ c ∈ run, p c = true)
    (hp : ∀ c ∈ post.head?, p c = false) :
    (run ++ post).takeWhile p = run ∧ (run ++ post).dropWhile p = post := by
  obtain ⟨ht, hd⟩ := takeWhile_append_of_head hp run
  rw [ht, hd, List.takeWhile_eq_self_iff.2 hr, List.dropWhile_eq_nil_iff.2 hr]
  exact ⟨rfl, rfl⟩

/-! ## One lexeme -/

theorem Lexeme.read_letter {c : Char} (h : isLetter c = true) (cs : List Char) :
    Lexeme.read c cs = ⟨Kind.ofWord (String.ofList (c :: cs.takeWhile isLetter)),
      String.ofList (c :: cs.takeWhile isLetter), c :: cs.takeWhile isLetter, cs.dropWhile isLetter⟩ := by
  unfold Lexeme.read
  rw [if_pos h]

theorem Lexeme.read_digit {c : Char} (h : isDigit c = true) (cs : List Char) :
    Lexeme.read c cs = ⟨.int, String.ofList (c :: cs.takeWhile isDigit), c :: cs.takeWhile isDigit,
      cs.dropWhile isDigit⟩ := by
  unfold Lexeme.read
  rw [if_neg (by rw [isLetter_of_isDigit h]; decide), if_pos h]

theorem Lexeme.read_closed {body : List Char} (h : '"' ∉ body) (rest : List Char) :
    Lexeme.read '"' (body ++ '"' :: rest) =
      ⟨.string, String.ofList body, '"' :: (body ++ ['"']), rest⟩ := by
  have hb : ∀ c ∈ body, (c != '"') = true := fun c hc => by
    simp only [bne_iff_ne, ne_eq]; rintro rfl; exact h hc
  have hq : ∀ c ∈ ('"' :: rest).head?, (c != '"') = false := by simp
  obtain ⟨ht, hd⟩ := takeWhile_run hb hq
  unfold Lexeme.read
  rw [if_neg (by decide), if_neg (by decide), if_pos rfl, ht, hd]
  rfl

theorem Lexeme.read_unclosed {cs : List Char} (h : '"' ∉ cs) :
    Lexeme.read '"' cs = ⟨.illegal, "\"", '"' :: cs, []⟩ := by
  have hb : ∀ c ∈ cs, (c != '"') = true := fun c hc => by
    simp only [bne_iff_ne, ne_eq]; rintro rfl; exact h hc
  unfold Lexeme.read
  rw [if_neg (by decide), if_neg (by decide), if_pos rfl, List.dropWhile_eq_nil_iff.2 hb]

theorem Lexeme.read_double {c : Char} (h : c = '=' ∨ c = '!') (cs : List Char) :
    Lexeme.read c ('=' :: cs) =
      ⟨if c = '=' then .equal else .notEqual, String.ofList [c, '='], [c, '='], cs⟩ := by
  rcases h with rfl | rfl <;> rfl

theorem Lexeme.read_single {c : Char} {cs : List Char} (hl : isLetter c = false) (hd : isDigit c = false)
    (hq : c ≠ '"') (hs : c = '=' ∨ c = '!' → cs.head? ≠ some '=') :
    Lexeme.read c cs = ⟨Kind.ofSign c, String.ofList [c], [c], cs⟩ := by
  unfold Lexeme.read
  rw [if_neg (by rw [hl]; decide), if_neg (by rw [hd]; decide), if_neg hq]
  split
  · exact absurd rfl (hs (.inl rfl))
  · exact absurd rfl (hs (.inr rfl))
  · rfl

theorem Kind.ofWord_ne_endOfInput (word : String) : Kind.ofWord word ≠ .endOfInput := by
  unfold Kind.ofWord
  split_ifs <;> decide

theorem Kind.ofSign_ne_endOfInput (c : Char) : Kind.ofSign c ≠ .endOfInput := by
  unfold Kind.ofSign
  split <;> decide

theorem Lexeme.kind_read_ne_endOfInput (c : Char) (cs : List Char) :
    (Lexeme.read c cs).kind ≠ .endOfInput := by
  unfold Lexeme.read
  split
  · exact Kind.ofWord_ne_endOfInput _
  · split
    · simp
    · split
      · split <;> simp
      · split
        · simp
        · simp
        · exact Kind.ofSign_ne_endOfInput _

namespace Reader

variable {r r' : Reader} {t : Token}

/-! ## One step -/

/-- A step skips the layout and takes the longest token at the first other character. -/
theorem next?_eq_some_iff : r.next? = some (t, r') ↔ ∃ c cs, r.rest.dropWhile isLayout = c :: cs ∧
    t.kind = (Lexeme.read c cs).kind ∧ t.literal = (Lexeme.read c cs).literal ∧
    t.span.start = r.offset + byteLength (r.rest.takeWhile isLayout) ∧
    t.span.stop = t.span.start + byteLength (Lexeme.read c cs).spelling ∧
    r' = ⟨t.span.stop, (Lexeme.read c cs).rest⟩ := by
  unfold next?
  constructor
  · intro h
    split at h
    · cases h
    · rename_i c cs hd
      cases h
      exact ⟨c, cs, hd, rfl, rfl, rfl, rfl, rfl⟩
  · rintro ⟨c, cs, hd, hk, hl, hs, ht, rfl⟩
    obtain ⟨k, l, s, e⟩ := t
    simp only at hk hl hs ht
    subst hk hl hs ht
    rw [hd]

theorem next?_eq_none_iff : r.next? = none ↔ r.rest.dropWhile isLayout = [] := by
  unfold next?
  split <;> simp_all

theorem kind_ne_of_next? (h : r.next? = some (t, r')) : t.kind ≠ .endOfInput := by
  obtain ⟨c, cs, -, hk, -⟩ := next?_eq_some_iff.1 h
  rw [hk]
  exact Lexeme.kind_read_ne_endOfInput c cs

theorem finish_of_next? (h : r.next? = some (t, r')) : r'.finish = r.finish := by
  obtain ⟨c, cs, hd, -, -, hs, ht, rfl⟩ := next?_eq_some_iff.1 h
  have hl := congrArg byteLength (Lexeme.spelling_append_rest c cs)
  have hr := congrArg byteLength (List.takeWhile_append_dropWhile (p := isLayout) (l := r.rest))
  rw [byteLength_append] at hl hr
  rw [hd] at hr
  simp only [finish]
  omega

/-! ## All tokens -/

/-- The tokens of the unread text without the one for its end. -/
def body (r : Reader) : List Token := r.tokens.dropLast

theorem tokens_of_none (h : r.next? = none) : r.tokens = [endAt r.finish] := by
  rw [tokens]
  split
  · rfl
  · rename_i h'; rw [h] at h'; cases h'

theorem tokens_of_some (h : r.next? = some (t, r')) : r.tokens = t :: r'.tokens := by
  rw [tokens]
  split
  · rename_i h'; rw [h] at h'; cases h'
  · rename_i h'; rw [h] at h'; cases h'; rfl

theorem tokens_eq_body_append (r : Reader) : r.tokens = r.body ++ [endAt r.finish] := by
  induction r using Reader.tokens.induct with
  | case1 r h => simp [body, tokens_of_none h]
  | case2 r t r' h ih =>
    rw [body, tokens_of_some h, ih, finish_of_next? h, ← List.cons_append, List.dropLast_concat]

theorem body_of_none (h : r.next? = none) : r.body = [] := by
  simp [body, tokens_of_none h]

theorem body_of_some (h : r.next? = some (t, r')) : r.body = t :: r'.body := by
  rw [body, tokens_of_some h, r'.tokens_eq_body_append, ← List.cons_append, List.dropLast_concat]

theorem kind_ne_of_mem_body : ∀ t ∈ r.body, t.kind ≠ .endOfInput := by
  induction r using Reader.tokens.induct with
  | case1 r h => simp [body_of_none h]
  | case2 r t r' h ih =>
    rw [body_of_some h]
    intro u hu
    rcases List.mem_cons.1 hu with rfl | hu
    · exact kind_ne_of_next? h
    · exact ih u hu

theorem stop_le_of_mem_body : ∀ t ∈ r.body, t.span.stop ≤ r.finish := by
  induction r using Reader.tokens.induct with
  | case1 r h => simp [body_of_none h]
  | case2 r t r' h ih =>
    rw [body_of_some h, ← finish_of_next? h]
    intro u hu
    rcases List.mem_cons.1 hu with rfl | hu
    · obtain ⟨c, cs, -, -, -, -, -, rfl⟩ := next?_eq_some_iff.1 h
      exact Nat.le_add_right ..
    · exact ih u hu

end Reader

end MonkeyLang.Token
