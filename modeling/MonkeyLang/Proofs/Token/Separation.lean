/-
Texts that stand side by side. With layout or a semicolon between them, the tokens of two texts are those of the first
one and then those of the second one, moved by what stands before it (`tokenize_separated`): no token goes on with
layout or a semicolon but a string that is still open, and where a text starts has no part in what its tokens are.
-/
import MonkeyLang.Proofs.Text.Bytes
import MonkeyLang.Proofs.Token.Word

namespace MonkeyLang.Token

open Text (byteLength byteLength_append byteLength_toList)

namespace Reader

/-! ## Moving a text -/

/-- The reader of the same text, `k` bytes further on. -/
def shift (r : Reader) (k : Nat) : Reader := ⟨r.offset + k, r.rest⟩

theorem next?_shift (r : Reader) (k : Nat) :
    (r.shift k).next? = r.next?.map fun q => (q.1.shift k, q.2.shift k) := by
  cases h : r.next? with
  | none => exact next?_eq_none_iff.2 (next?_eq_none_iff (r := r).1 h)
  | some q =>
    obtain ⟨c, cs, hd, hk, hl, hs, ht, hr⟩ := next?_eq_some_iff.1 h
    refine next?_eq_some_iff.2 ⟨c, cs, hd, hk, hl, ?_, ?_, ?_⟩
    · show q.1.span.start + k = r.offset + k + byteLength (r.rest.takeWhile isLayout)
      omega
    · show q.1.span.stop + k = q.1.span.start + k + byteLength (Lexeme.read c cs).spelling
      omega
    · rw [hr]
      rfl

theorem tokens_shift (r : Reader) (k : Nat) : (r.shift k).tokens = r.tokens.map fun t => t.shift k := by
  induction r using Reader.tokens.induct with
  | case1 r h =>
    have hfinish : (r.shift k).finish = r.finish + k := by
      simp only [finish, shift]
      omega
    have hnone : (r.shift k).next? = none := by rw [next?_shift, h]; rfl
    rw [tokens_of_none hnone, tokens_of_none h, hfinish]
    rfl
  | case2 r t r' h ih =>
    have hsome : (r.shift k).next? = some (t.shift k, r'.shift k) := by rw [next?_shift, h]; rfl
    rw [tokens_of_some hsome, tokens_of_some h, List.map_cons, ih]

/-! ## Cutting a text in two -/

variable {n : Nat} {as bs : List Char}

theorem finish_append (n : Nat) (as bs : List Char) :
    (Reader.mk n (as ++ bs)).finish = (Reader.mk (n + byteLength as) bs).finish := by
  simp only [finish, byteLength_append, Nat.add_assoc]

theorem tokens_append (hb : Breaks bs) (ht : ∀ t ∈ (Reader.mk n as).body, ¬ t.word.Unterminated) :
    (Reader.mk n (as ++ bs)).tokens = (Reader.mk n as).body ++ (Reader.mk (n + byteLength as) bs).tokens := by
  rw [tokens_eq_body_append, body_append hb ht, finish_append, List.append_assoc, ← tokens_eq_body_append]

theorem tokens_layout_append (has : ∀ c ∈ as, isLayout c = true) :
    (Reader.mk n (as ++ bs)).tokens = (Reader.mk (n + byteLength as) bs).tokens := by
  have hnext : (Reader.mk n (as ++ bs)).next? = (Reader.mk (n + byteLength as) bs).next? :=
    next?_layout (List.dropWhile_eq_nil_iff.2 has)
  rw [tokens_eq_body_append, body_eq_of_next? hnext, finish_append, ← tokens_eq_body_append]

theorem tokens_semicolon (n : Nat) (cs : List Char) :
    (Reader.mk n (';' :: cs)).tokens = ⟨.semicolon, ";", ⟨n, n + 1⟩⟩ :: (Reader.mk (n + 1) cs).tokens :=
  tokens_of_some rfl

end Reader

/-! ## Whole texts -/

theorem isBreak_of_isLayout {c : Char} (h : isLayout c = true) : isBreak c = true := by
  simp only [isLayout, Bool.or_eq_true, beq_iff_eq] at h
  obtain (((rfl | rfl) | rfl) | rfl) | rfl := h <;> decide

/-- A text is read the same wherever it starts. -/
theorem tokens_of_offset (n : Nat) (b : String) :
    (Reader.mk n b.toList).tokens = (tokenize b).map fun t => t.shift n := by
  have hstart : Reader.mk n b.toList = (Reader.ofString b).shift n := by
    rw [Reader.shift, Reader.ofString, Nat.zero_add]
  rw [hstart, Reader.tokens_shift, tokenize]

/-- What stands behind a text without an open string, and begins with no letter, digit or `=`, has no part in its
tokens. -/
theorem tokenize_append {a : String} (ha : ∀ t ∈ tokenize a, ¬ t.word.Unterminated) {b : String}
    (hb : Breaks b.toList) :
    tokenize (a ++ b) = (tokenize a).dropLast ++ (Reader.mk a.utf8ByteSize b.toList).tokens := by
  have hbody : ∀ t ∈ (Reader.mk 0 a.toList).body, ¬ t.word.Unterminated :=
    fun t ht => ha t (List.dropLast_subset _ ht)
  rw [tokenize, Reader.ofString, String.toList_append, Reader.tokens_append hb hbody, Nat.zero_add, byteLength_toList]
  rfl

theorem tokenize_append_semicolon {a : String} (ha : ∀ t ∈ tokenize a, ¬ t.word.Unterminated) (b : String) :
    tokenize (a ++ ";" ++ b) = (tokenize a).dropLast ++ ⟨.semicolon, ";", ⟨a.utf8ByteSize, a.utf8ByteSize + 1⟩⟩ ::
      (Reader.mk (a.utf8ByteSize + 1) b.toList).tokens := by
  have hsplit : (";" ++ b).toList = ';' :: b.toList := by simp
  have hbreaks : Breaks (";" ++ b).toList := by
    rw [hsplit]
    exact breaks_cons rfl _
  rw [String.append_assoc, tokenize_append ha hbreaks, hsplit, Reader.tokens_semicolon]

/-- The tokens of a text without an open string, of layout or a semicolon, and of another text are the tokens of the
two texts, those of the second one moved by what stands before it. -/
theorem tokenize_separated {a : String} (ha : ∀ t ∈ tokenize a, ¬ t.word.Unterminated) (b : String) :
    (∀ w : String, w ≠ "" → (∀ c ∈ w.toList, c ∈ [' ', '\t', '\n', '\r', '\x0c']) →
      tokenize (a ++ w ++ b) = (tokenize a).dropLast ++ (tokenize b).map fun t => t.shift (a ++ w).utf8ByteSize) ∧
    tokenize (a ++ ";" ++ b) = (tokenize a).dropLast ++ ⟨.semicolon, ";", ⟨a.utf8ByteSize, a.utf8ByteSize + 1⟩⟩ ::
      (tokenize b).map fun t => t.shift (a.utf8ByteSize + 1) := by
  constructor
  · intro w hne hw
    have hl : ∀ c ∈ w.toList, isLayout c = true := fun c hc => by simpa [isLayout, or_assoc] using hw c hc
    obtain ⟨c, cs, hcs⟩ := List.exists_cons_of_ne_nil (mt String.toList_eq_nil_iff.1 hne)
    have hbreaks : Breaks (w ++ b).toList := by
      rw [String.toList_append, hcs]
      exact breaks_cons (isBreak_of_isLayout (hl c (by simp [hcs]))) _
    rw [String.append_assoc, tokenize_append ha hbreaks, String.toList_append, Reader.tokens_layout_append hl,
      byteLength_toList, tokens_of_offset, String.utf8ByteSize_append]
  · rw [tokenize_append_semicolon ha, tokens_of_offset]

/-- A sign that could be the first half of another one stands before the layout, and a closed string before the
semicolon; the second text leaves a string open. -/
theorem tokenize_separated_halves :
    (∀ t ∈ tokenize "é=\"a\"=", ¬ t.word.Unterminated) ∧
      tokenize ("é=\"a\"=" ++ "\n\x0c" ++ "=1\"b") = (tokenize "é=\"a\"=").dropLast ++
        [⟨.assign, "=", ⟨9, 10⟩⟩, ⟨.int, "1", ⟨10, 11⟩⟩, ⟨.illegal, "\"", ⟨11, 13⟩⟩, endAt 13] ∧
      tokenize ("é=\"a\"=" ++ ";" ++ "=1\"b") = (tokenize "é=\"a\"=").dropLast ++ ⟨.semicolon, ";", ⟨7, 8⟩⟩ ::
        [⟨.assign, "=", ⟨8, 9⟩⟩, ⟨.int, "1", ⟨9, 10⟩⟩, ⟨.illegal, "\"", ⟨10, 12⟩⟩, endAt 12] := by
  have ha : ∀ t ∈ tokenize "é=\"a\"=", ¬ t.word.Unterminated := by decide +kernel
  have hb : tokenize "=1\"b" =
      [⟨.assign, "=", ⟨0, 1⟩⟩, ⟨.int, "1", ⟨1, 2⟩⟩, ⟨.illegal, "\"", ⟨2, 4⟩⟩, endAt 4] := by decide +kernel
  obtain ⟨hlayout, hsemicolon⟩ := tokenize_separated ha "=1\"b"
  rw [hlayout "\n\x0c" (by decide) (by simp), hsemicolon, hb]
  exact ⟨ha, rfl, rfl⟩

end MonkeyLang.Token
