/-
Layout between tokens. Wherever a text is not cut inside of a token, layout can be put in: the tokens keep their
kinds and literals, so the text is read as the same program, and the same is said of what is wrong with it
(`parse_insert_layout`). Layout behind a token changes nothing about it, since no run of letters or digits and no
sign goes on with it; only a string that is never closed takes it in, and that one ends the text.
-/
import MonkeyLang.Proofs.Parse.Relocation
import MonkeyLang.Proofs.Token.Partition

namespace MonkeyLang

namespace Token

open Text (byteLength byteLength_append byteLength_toList exists_append_of_byteLength_le)

variable {as bs es layout lexeme post post' : List Char} {k : Kind} {literal : String}

/-- The offset is strictly inside the span of the token. -/
def Straddles (t : Token) (offset : Nat) : Prop := t.span.start < offset ∧ offset < t.span.stop

instance (t : Token) (offset : Nat) : Decidable (t.Straddles offset) := inferInstanceAs (Decidable (_ ∧ _))

/-! ## Layout behind a token -/

theorem Spelled.wordsOf_append (h : Spelled k literal lexeme post) :
    wordsOf (lexeme ++ post) = ⟨k, literal⟩ :: wordsOf post := by
  obtain ⟨c, cs, rfl, hc, hread⟩ := h.read
  rw [List.cons_append, wordsOf_cons hc, hread]

/-- A closed token is spelled the same before layout. -/
theorem Spelled.of_post (h : Spelled k literal lexeme post) (ht : ¬ Word.Unterminated ⟨k, literal⟩)
    (hpost : ∀ c ∈ post'.head?, c ∈ post.head? ∨ isLayout c = true) : Spelled k literal lexeme post' := by
  -- what is not layout may not follow if it could not follow before
  have hkeep {p : Char → Bool} (hp : ∀ c, p c = true → isLayout c = false)
      (hmax : ∀ c ∈ post.head?, p c = false) : ∀ c ∈ post'.head?, p c = false := by
    intro c hc
    rcases hpost c hc with hc | hc
    · exact hmax c hc
    · by_contra hne
      rw [hp c (by simpa using hne)] at hc
      cases hc
  cases h with
  | reserved h maximal => exact .reserved h (hkeep (fun _ => isLayout_of_isLetter) maximal)
  | ident nonempty letters h maximal =>
    exact .ident nonempty letters h (hkeep (fun _ => isLayout_of_isLetter) maximal)
  | int nonempty digits maximal => exact .int nonempty digits (hkeep (fun _ => isLayout_of_isDigit) maximal)
  | string h => exact .string h
  | sign h maximal =>
    refine .sign h fun hk hhead => ?_
    rcases hpost '=' hhead with heq | hl
    · exact maximal hk heq
    · cases hl
  | stray letter digit quote layout h => exact .stray letter digit quote layout h
  | unclosed h => exact absurd ⟨rfl, rfl⟩ ht

theorem Spelled.unclosed_of_unterminated (h : Spelled k literal lexeme post)
    (ht : Word.Unterminated ⟨k, literal⟩) : ∃ body, '"' ∉ body ∧ lexeme = '"' :: body ∧ post = [] := by
  obtain ⟨rfl, rfl⟩ := ht
  generalize hk : Kind.illegal = k at h
  generalize hl : "\"" = literal at h
  cases h with
  | @unclosed body h => exact ⟨body, h, rfl, rfl⟩
  | @stray c _ letter digit quote =>
    have hc : ['"'] = [c] := (congrArg String.toList hl).trans String.toList_ofList
    exact absurd (List.cons.inj hc).1.symm quote
  | reserved h => subst hk; simp [reservedWords] at h
  | sign h => subst hk; simp [signs] at h
  | _ => cases hk

/-- With layout put in further on, the same token is read first. -/
theorem Spelled.wordsOf_insert (h : Spelled k literal lexeme (es ++ bs)) (hl : ∀ c ∈ layout, isLayout c = true) :
    wordsOf (lexeme ++ (es ++ (layout ++ bs))) = ⟨k, literal⟩ :: wordsOf (es ++ (layout ++ bs)) := by
  by_cases ht : Word.Unterminated ⟨k, literal⟩
  · -- the layout becomes a part of the string
    obtain ⟨body, hbody, rfl, hnil⟩ := h.unclosed_of_unterminated ht
    obtain ⟨rfl, rfl⟩ := List.append_eq_nil_iff.1 hnil
    obtain ⟨rfl, rfl⟩ := ht
    have hquote : '"' ∉ layout := fun hm => nomatch hl _ hm
    have hnone : wordsOf layout = [] := by simpa using wordsOf_layout_append hl []
    have hread : Lexeme.read '"' (body ++ layout) = _ := Lexeme.read_unclosed (by simp [hbody, hquote])
    rw [List.nil_append, List.append_nil, List.cons_append, wordsOf_cons rfl, hread, hnone, wordsOf_nil]
  · refine (h.of_post ht fun c hc => ?_).wordsOf_append
    rcases es with _ | ⟨e, es⟩
    · rcases layout with _ | ⟨d, layout⟩
      · exact .inl hc
      · obtain rfl : d = c := by simpa using hc
        exact .inr (hl d (by simp))
    · exact .inl hc

/-! ## Layout anywhere between tokens -/

theorem wordsOf_insert {n : Nat} (hl : ∀ c ∈ layout, isLayout c = true)
    (hcut : ∀ t ∈ (Reader.mk n (as ++ bs)).body, ¬ t.Straddles (n + byteLength as)) :
    wordsOf (as ++ (layout ++ bs)) = wordsOf (as ++ bs) := by
  -- by the tokens of the text, up to the one that the layout comes before
  generalize hr : Reader.mk n (as ++ bs) = r at hcut
  induction r using Reader.tokens.induct generalizing n as with
  | case1 r h =>
    subst hr
    have hall : ∀ c ∈ as ++ bs, isLayout c = true := List.dropWhile_eq_nil_iff.1 (Reader.next?_eq_none_iff.1 h)
    have has : ∀ c ∈ as, isLayout c = true := fun c hc => hall c (List.mem_append_left bs hc)
    rw [wordsOf_layout_append has, wordsOf_layout_append has, wordsOf_layout_append hl]
  | case2 r t r' h ih =>
    subst hr
    obtain ⟨gap, lexeme, hf, hrest, ho⟩ := isFirst_of_next? h
    have hstart := hf.start_eq
    have hstop := hf.stop_eq
    rw [Reader.body_of_some h, List.forall_mem_cons] at hcut
    obtain ⟨hfirst, hcut⟩ := hcut
    have hrest : as ++ bs = gap ++ (lexeme ++ r'.rest) := by rw [← List.append_assoc]; exact hrest
    by_cases hle : byteLength as ≤ byteLength gap
    · -- before the first token there is only layout
      obtain ⟨es, hgap, -⟩ := exists_append_of_byteLength_le hrest hle
      have has : ∀ c ∈ as, isLayout c = true := fun c hc => hf.layout c (by simp [hgap, hc])
      rw [wordsOf_layout_append has, wordsOf_layout_append has, wordsOf_layout_append hl]
    · have hbehind : byteLength (gap ++ lexeme) ≤ byteLength as := by
        rw [byteLength_append]
        unfold Straddles at hfirst
        simp only at hstart hstop
        omega
      rw [← List.append_assoc] at hrest
      obtain ⟨es, rfl, hes⟩ := exists_append_of_byteLength_le hrest.symm hbehind
      have hspelled : Spelled t.kind t.literal lexeme (es ++ bs) := hes ▸ hf.spelled
      have hoffset : r'.offset + byteLength es = n + byteLength (gap ++ lexeme ++ es) := by
        simp only [byteLength_append]
        simp only at hstop
        omega
      have hwords : wordsOf (es ++ (layout ++ bs)) = wordsOf (es ++ bs) :=
        ih (n := r'.offset) (by rw [← hes]) (by rwa [hoffset])
      simp only [List.append_assoc]
      rw [wordsOf_layout_append hf.layout, wordsOf_layout_append hf.layout, hspelled.wordsOf_insert hl,
        hspelled.wordsOf_append, hwords]

/-- An offset that is not inside of a token is not inside of a character either: one that takes up more than a
byte is not layout, and a token covers it as a whole. -/
theorem exists_cut {source : String} {offset : Nat} (hle : offset ≤ source.utf8ByteSize)
    (hcut : ∀ t ∈ tokenize source, ¬ t.Straddles offset) :
    ∃ as bs, source.toList = as ++ bs ∧ byteLength as = offset := by
  rcases Nat.eq_or_lt_of_le hle with rfl | hlt
  · exact ⟨source.toList, [], by simp, byteLength_toList source⟩
  · obtain ⟨b, hb⟩ : ∃ b, (source.toList.flatMap String.utf8EncodeChar)[offset]? = some b := by
      rw [← Option.isSome_iff_exists, isSome_getElem?, Text.length_flatMap_utf8EncodeChar, byteLength_toList]
      exact hlt
    obtain ⟨gap, c, post, j, hs, rfl, hj, -⟩ := Text.exists_of_getElem?_flatMap hb
    by_cases hj0 : j = 0
    · exact ⟨gap, c :: post, hs, by rw [hj0, Nat.add_zero]⟩
    · exfalso
      cases hc : isLayout c with
      | true =>
        obtain ⟨b, -, he⟩ := utf8EncodeChar_of_isLayout hc
        have hsize := String.length_utf8EncodeChar c
        rw [he, List.length_singleton] at hsize
        omega
      | false =>
        have hlexed := lexed_body source
        obtain ⟨t, ht, hcov⟩ := hlexed.partitions.covered gap c post hs hc
        rw [Nat.zero_add] at hcov
        have hin := (hlexed.spelled t ht).covers hs hcov hj
        exact hcut t (List.dropLast_subset _ ht) ⟨Nat.lt_of_le_of_lt hcov.1 (by omega), hin.2⟩

end Token

/-- Layout put into a text where it is not inside of a token leaves the kinds and literals of the tokens, the
program, and the messages of all errors as they are. -/
theorem parse_insert_layout (source layout : String) (offset : Nat) (hle : offset ≤ source.utf8ByteSize)
    (hcut : ∀ t ∈ Token.tokenize source, ¬ t.Straddles offset)
    (hlayout : ∀ c ∈ layout.toList, c ∈ [' ', '\t', '\n', '\r', '\x0c']) :
    ∃ before behind, source = before ++ behind ∧ before.utf8ByteSize = offset ∧
      (Token.tokenize (before ++ layout ++ behind)).map Token.word = (Token.tokenize source).map Token.word ∧
      (parse (before ++ layout ++ behind)).program = (parse source).program ∧
      (parse (before ++ layout ++ behind)).errors.map ParseError.message =
        (parse source).errors.map ParseError.message := by
  obtain ⟨as, bs, hs, has⟩ := Token.exists_cut hle hcut
  have hl : ∀ c ∈ layout.toList, Token.isLayout c = true := by
    intro c hc
    simpa [Token.isLayout, or_assoc] using hlayout c hc
  have hbody : ∀ t ∈ (Token.Reader.mk 0 (as ++ bs)).body, ¬ t.Straddles (0 + Text.byteLength as) := by
    rw [← hs, has, Nat.zero_add]
    exact fun t ht => hcut t (List.dropLast_subset _ ht)
  have hwords : (Token.tokenize (String.ofList as ++ layout ++ String.ofList bs)).map Token.word =
      (Token.tokenize source).map Token.word := by
    rw [Token.words_tokenize, Token.words_tokenize, String.toList_append, String.toList_append,
      String.toList_ofList, String.toList_ofList, List.append_assoc, Token.wordsOf_insert hl hbody, hs]
  obtain ⟨hprogram, hcauses⟩ := parse_eq_of_words hwords
  refine ⟨String.ofList as, String.ofList bs, ?_, ?_, hwords, hprogram, ?_⟩
  · rw [← String.ofList_append, ← hs, String.ofList_toList]
  · rw [← Text.byteLength_toList, String.toList_ofList, has]
  · have hmessages := congrArg (List.map ParseError.Cause.message) hcauses
    rw [List.map_map, List.map_map] at hmessages
    exact hmessages

/-- At the end of a text with errors, where a quote that is never closed takes the layout in. -/
theorem parse_insert_layout_unclosed :
    (∀ t ∈ Token.tokenize "let x 1é\"a", ¬ t.Straddles 11) ∧
      ∃ before behind, "let x 1é\"a" = before ++ behind ∧ before.utf8ByteSize = 11 ∧
        (Token.tokenize (before ++ "\n\t" ++ behind)).map Token.word =
          (Token.tokenize "let x 1é\"a").map Token.word ∧
        (parse (before ++ "\n\t" ++ behind)).program = (parse "let x 1é\"a").program ∧
        (parse (before ++ "\n\t" ++ behind)).errors.map ParseError.message =
          (parse "let x 1é\"a").errors.map ParseError.message := by
  have hcut : ∀ t ∈ Token.tokenize "let x 1é\"a", ¬ t.Straddles 11 := by decide +kernel
  exact ⟨hcut, parse_insert_layout _ _ 11 (by decide +kernel) hcut (by simp)⟩

end MonkeyLang
