/-
What the tokens of a source are, said without the scanner: they stand one behind the other, each is
spelled by the characters in its span, and only layout is left between them. There is exactly one such
sequence, and the scanner finds it.

The proof goes from bytes to characters and then follows the scanner: at the first character that is
not layout there is a token, no token comes before it, and what is spelled there is what the scanner
reads.
-/
import MonkeyLang.Proofs.Text.Bytes
import MonkeyLang.Proofs.Token.Spelling

namespace MonkeyLang.Token

open Text (bytesOf byteLength byteLength_append byteLength_toList exists_append_of_byteLength_le)

/-- Space, tab, newline, carriage return and form feed. -/
def layoutBytes : List UInt8 := [32, 9, 10, 13, 12]

/-- A byte stands in the span of a token. -/
def Covers (t : Token) (i : Nat) : Prop := t.span.start ≤ i ∧ i < t.span.stop

/-- The lexeme of a token is the part of the source in its span, which starts and ends between two
characters, and it spells the token. -/
def SpelledIn (source : List Char) (t : Token) : Prop :=
  ∃ pre lexeme post, source = pre ++ lexeme ++ post ∧ t.span.start = byteLength pre ∧
    t.span.stop = byteLength (pre ++ lexeme) ∧ Spelled t.kind t.literal lexeme post

/-- The tokens of a source, the one for its end left out. -/
structure Lexed (source : String) (ws : List Token) : Prop where
  nonempty : ∀ t ∈ ws, t.span.start < t.span.stop
  ordered : ws.Pairwise fun t u => t.span.stop ≤ u.span.start
  spelled : ∀ t ∈ ws, SpelledIn source.toList t
  layout : ∀ i b, (bytesOf source)[i]? = some b → (∀ t ∈ ws, ¬ t.Covers i) → b ∈ layoutBytes

/-- The tokens of a source, with an empty one behind its last byte. -/
def IsTokenization (source : String) (ts : List Token) : Prop :=
  ∃ ws, Lexed source ws ∧ ts = ws ++ [⟨.endOfInput, "", ⟨source.utf8ByteSize, source.utf8ByteSize⟩⟩]

/-! ## Layout bytes -/

theorem utf8EncodeChar_of_isLayout {c : Char} (h : isLayout c = true) :
    ∃ b ∈ layoutBytes, String.utf8EncodeChar c = [b] := by
  simp only [isLayout, Bool.or_eq_true, beq_iff_eq] at h
  obtain (((rfl | rfl) | rfl) | rfl) | rfl := h
  · exact ⟨32, by decide, by decide⟩
  · exact ⟨9, by decide, by decide⟩
  · exact ⟨10, by decide, by decide⟩
  · exact ⟨13, by decide, by decide⟩
  · exact ⟨12, by decide, by decide⟩

theorem isLayout_of_utf8EncodeChar {c : Char} {b : UInt8} (h : (String.utf8EncodeChar c)[0]? = some b)
    (hb : b ∈ layoutBytes) : isLayout c = true := by
  have hlt : ∀ b ∈ layoutBytes, b.toNat < 128 := by simp [layoutBytes]
  have hall : ∀ b ∈ layoutBytes, isLayout (Char.ofNat b.toNat) = true := List.all_eq_true.1 (by decide)
  have hc := Text.toNat_eq_of_utf8EncodeChar h (hlt b hb)
  have hl := hall b hb
  rwa [← hc, Char.ofNat_toNat] at hl

/-! ## Characters -/

/-- The tokens of the characters `cs`, which begin at the offset `o` of the source. -/
structure Partitions (o : Nat) (cs : List Char) (ws : List Token) : Prop where
  ordered : ws.Pairwise fun t u => t.span.stop ≤ u.span.start
  spelled : ∀ t ∈ ws, ∃ gap lexeme post, cs = gap ++ lexeme ++ post ∧ t.span.start = o + byteLength gap ∧
    t.span.stop = o + byteLength gap + byteLength lexeme ∧ Spelled t.kind t.literal lexeme post
  covered : ∀ gap c post, cs = gap ++ c :: post → isLayout c = false →
    ∃ t ∈ ws, t.Covers (o + byteLength gap)

theorem Spelled.byteLength_pos {k : Kind} {literal : String} {lexeme post : List Char}
    (h : Spelled k literal lexeme post) : 0 < byteLength lexeme := by
  obtain ⟨c, cs, rfl, -⟩ := h.read
  have := c.utf8Size_pos
  simp only [byteLength]
  omega

/-- A token covers a character as a whole or not at all. -/
theorem SpelledIn.covers {source gap post : List Char} {c : Char} {t : Token} (h : SpelledIn source t)
    (hs : source = gap ++ c :: post) (hc : t.Covers (byteLength gap)) {j : Nat} (hj : j < c.utf8Size) :
    t.Covers (byteLength gap + j) := by
  obtain ⟨pre, lexeme, post', rfl, hstart, hstop, -⟩ := h
  obtain ⟨h₁, h₂⟩ := hc
  obtain ⟨es, he, hp⟩ := exists_append_of_byteLength_le hs.symm (by omega)
  cases es with
  | nil =>
    rw [List.append_nil] at he
    rw [hstop, he] at h₂
    omega
  | cons d es =>
    obtain ⟨rfl, -⟩ := List.cons.inj hp
    rw [he, byteLength_append, byteLength] at hstop
    exact ⟨by omega, by omega⟩

theorem spelledIn_iff {cs : List Char} {t : Token} : SpelledIn cs t ↔
    ∃ gap lexeme post, cs = gap ++ lexeme ++ post ∧ t.span.start = 0 + byteLength gap ∧
      t.span.stop = 0 + byteLength gap + byteLength lexeme ∧ Spelled t.kind t.literal lexeme post := by
  simp only [SpelledIn, byteLength_append, Nat.zero_add]

theorem Lexed.partitions {source : String} {ws : List Token} (h : Lexed source ws) :
    Partitions 0 source.toList ws := by
  refine ⟨h.ordered, fun t ht => spelledIn_iff.1 (h.spelled t ht), ?_⟩
  intro gap c post hcs hc
  by_contra hno
  -- no token covers the first byte of the character, so that byte is layout
  obtain ⟨b, hb⟩ : ∃ b, (String.utf8EncodeChar c)[0]? = some b := by
    rw [← Option.isSome_iff_exists, isSome_getElem?]
    simpa using c.utf8Size_pos
  have hbyte : (bytesOf source)[byteLength gap]? = some b := by
    rw [Text.bytesOf_eq, hcs, List.flatMap_append, List.getElem?_append_right
      (by rw [Text.length_flatMap_utf8EncodeChar]), Text.length_flatMap_utf8EncodeChar, Nat.sub_self,
      List.flatMap_cons, List.getElem?_append_left (by simpa using c.utf8Size_pos), hb]
  have hl := h.layout _ b hbyte fun t ht hcov => hno ⟨t, ht, by rwa [Nat.zero_add]⟩
  rw [isLayout_of_utf8EncodeChar hb hl] at hc
  cases hc

theorem Partitions.lexed {source : String} {ws : List Token} (h : Partitions 0 source.toList ws) :
    Lexed source ws := by
  have hsp : ∀ t ∈ ws, SpelledIn source.toList t := fun t ht => spelledIn_iff.2 (h.spelled t ht)
  refine ⟨?_, h.ordered, hsp, ?_⟩
  · intro t ht
    obtain ⟨gap, lexeme, post, -, h₁, h₂, hsp⟩ := h.spelled t ht
    have := hsp.byteLength_pos
    omega
  · intro i b hib hno
    rw [Text.bytesOf_eq] at hib
    obtain ⟨gap, c, post, j, hcs, rfl, hj, hb⟩ := Text.exists_of_getElem?_flatMap hib
    cases hc : isLayout c with
    | true =>
      -- layout is one byte long
      obtain ⟨b', hb', he⟩ := utf8EncodeChar_of_isLayout hc
      rw [he] at hb
      have hj0 : j = 0 := by
        have := String.length_utf8EncodeChar c
        rw [he, List.length_singleton] at this
        omega
      subst hj0
      obtain rfl := Option.some.inj hb
      exact hb'
    | false =>
      obtain ⟨t, ht, hcov⟩ := h.covered gap c post hcs hc
      rw [Nat.zero_add] at hcov
      exact absurd ((hsp t ht).covers hcs hcov hj) (hno t ht)

/-! ## The first token -/

/-- Where only layout is left there is no token. -/
theorem partitions_layout {o : Nat} {cs : List Char} (h : ∀ c ∈ cs, isLayout c = true) {ws : List Token} :
    Partitions o cs ws ↔ ws = [] := by
  constructor
  · intro hp
    cases ws with
    | nil => rfl
    | cons t ws =>
      obtain ⟨gap, lexeme, post, hcs, -, -, hs⟩ := hp.spelled t (by simp)
      obtain ⟨c, cs', rfl, hc, -⟩ := hs.read
      rw [h c (by simp [hcs])] at hc
      cases hc
  · rintro rfl
    refine ⟨.nil, by simp, ?_⟩
    rintro gap c post rfl hc
    rw [h c (by simp)] at hc
    cases hc

section First

variable {o : Nat} {gap lexeme post : List Char} {t : Token} {ws : List Token}

/-- The token `t` is spelled by `lexeme`, and only layout stands before it. -/
structure IsFirst (o : Nat) (gap lexeme post : List Char) (t : Token) : Prop where
  layout : ∀ c ∈ gap, isLayout c = true
  start_eq : t.span.start = o + byteLength gap
  stop_eq : t.span.stop = o + byteLength gap + byteLength lexeme
  spelled : Spelled t.kind t.literal lexeme post

/-- No character that is not layout stands in the layout before the first token. -/
theorem IsFirst.byteLength_gap_le (hf : IsFirst o gap lexeme post t) {g p : List Char} {c : Char}
    (h : gap ++ lexeme ++ post = g ++ c :: p) (hc : isLayout c = false) : byteLength gap ≤ byteLength g := by
  by_contra hlt
  rw [List.append_assoc] at h
  obtain ⟨es, he, hes⟩ := exists_append_of_byteLength_le h.symm (by omega)
  cases es with
  | nil => rw [he, List.append_nil] at hlt; omega
  | cons e es =>
    obtain ⟨rfl, -⟩ := List.cons.inj hes
    rw [hf.layout c (by simp [he])] at hc
    cases hc

/-- A token that begins where the layout ends is the one spelled there. -/
theorem IsFirst.eq_of_start_le (hf : IsFirst o gap lexeme post t) {u : Token}
    (hu : ∃ g l p, gap ++ lexeme ++ post = g ++ l ++ p ∧ u.span.start = o + byteLength g ∧
      u.span.stop = o + byteLength g + byteLength l ∧ Spelled u.kind u.literal l p)
    (hge : t.span.start ≤ u.span.start) (hle : u.span.start ≤ t.span.start) : u = t := by
  have hstart := hf.start_eq
  have hstop := hf.stop_eq
  obtain ⟨g, l, p, hcs, hs, he, hsp⟩ := hu
  -- both begin at the same character, and the scanner reads one token there
  simp only [List.append_assoc] at hcs
  obtain ⟨es, hg, hes⟩ := exists_append_of_byteLength_le hcs (by omega)
  obtain rfl : es = [] := by
    rw [hg, byteLength_append] at hs
    exact Text.byteLength_eq_zero.1 (by omega)
  rw [List.append_nil] at hg
  rw [List.nil_append] at hes
  obtain ⟨c, cs, rfl, -, hread⟩ := hf.spelled.read
  obtain ⟨d, ds, rfl, -, hread'⟩ := hsp.read
  obtain ⟨rfl, htail⟩ := List.cons.inj hes
  rw [List.append_eq, List.append_eq] at htail
  rw [htail, hread', Lexeme.mk.injEq] at hread
  obtain ⟨hk, hl, hlex, -⟩ := hread
  obtain ⟨k, l, start, stop⟩ := u
  obtain ⟨k', l', start', stop'⟩ := t
  simp only at hk hl hs he hstart hstop ⊢
  rw [hg] at hs he
  rw [hlex] at he
  subst hk hl
  congr 2
  · omega
  · omega

theorem Partitions.cons (hf : IsFirst o gap lexeme post t) (h : Partitions t.span.stop post ws) :
    Partitions o (gap ++ lexeme ++ post) (t :: ws) := by
  have hstop := hf.stop_eq
  refine ⟨List.pairwise_cons.2 ⟨?_, h.ordered⟩, ?_, ?_⟩
  · intro u hu
    obtain ⟨g, l, p, -, hs, -⟩ := h.spelled u hu
    omega
  · intro u hu
    rcases List.mem_cons.1 hu with rfl | hu
    · exact ⟨gap, lexeme, post, rfl, hf.start_eq, hf.stop_eq, hf.spelled⟩
    · obtain ⟨g, l, p, rfl, hs, he, hsp⟩ := h.spelled u hu
      refine ⟨gap ++ lexeme ++ g, l, p, by simp, ?_, ?_, hsp⟩
      · rw [hs, hstop]; simp only [byteLength_append]; omega
      · rw [he, hstop]; simp only [byteLength_append]; omega
  · intro g c p hcs hc
    by_cases hle : byteLength (gap ++ lexeme) ≤ byteLength g
    · -- behind the first token
      obtain ⟨es, rfl, hp⟩ := exists_append_of_byteLength_le hcs hle
      obtain ⟨u, hu, hcov⟩ := h.covered es c p hp hc
      refine ⟨u, List.mem_cons_of_mem t hu, ?_⟩
      rw [hstop] at hcov
      simpa only [byteLength_append, Nat.add_assoc] using hcov
    · -- inside the first token: the character is not layout, so it is not before it
      refine ⟨t, by simp, ?_⟩
      have hge := hf.byteLength_gap_le (hcs.trans rfl) hc
      have hstart := hf.start_eq
      rw [byteLength_append] at hle
      exact ⟨by omega, by omega⟩

/-- The token that is spelled behind the layout comes first, and the others are those of the rest. -/
theorem Partitions.uncons (hf : IsFirst o gap lexeme post t) (h : Partitions o (gap ++ lexeme ++ post) ws) :
    ∃ ws', ws = t :: ws' ∧ Partitions t.span.stop post ws' := by
  have hstart := hf.start_eq
  have hstop := hf.stop_eq
  -- a token of the whole begins where the layout ends, or later
  have hfrom : ∀ u ∈ ws, t.span.start ≤ u.span.start ∧ u.span.start < u.span.stop := by
    intro u hu
    obtain ⟨g, l, p, hcs, hs, he, hsp⟩ := h.spelled u hu
    have hpos := hsp.byteLength_pos
    obtain ⟨c, cs, rfl, hc, -⟩ := hsp.read
    have hge := hf.byteLength_gap_le (g := g) (c := c) (p := cs ++ p) (by simpa using hcs) hc
    exact ⟨by omega, by omega⟩
  obtain ⟨c, cs, hl, hc, -⟩ := hf.spelled.read
  obtain ⟨u, hu, hcov⟩ := h.covered gap c (cs ++ post) (by simp [hl]) hc
  obtain rfl := hf.eq_of_start_le (h.spelled u hu) (hfrom u hu).1 (by have := hcov.1; omega)
  cases ws with
  | nil => cases hu
  | cons v ws =>
    obtain ⟨hv, ho⟩ := List.pairwise_cons.1 h.ordered
    -- nothing comes before it
    obtain rfl : u = v := by
      rcases List.mem_cons.1 hu with hu | hu
      · exact hu
      · have := hv u hu
        have := hfrom v (by simp)
        omega
    refine ⟨ws, rfl, ho, ?_, ?_⟩
    · intro w hw
      obtain ⟨g, l, p, hcs, hs, he, hsp⟩ := h.spelled w (List.mem_cons_of_mem u hw)
      have hle := hv w hw
      rw [List.append_assoc g] at hcs
      obtain ⟨es, rfl, hp⟩ := exists_append_of_byteLength_le hcs (by rw [byteLength_append]; omega)
      simp only [byteLength_append] at hs he
      exact ⟨es, l, p, by rw [hp, List.append_assoc], by omega, by omega, hsp⟩
    · intro g d p hp hd
      obtain ⟨w, hw, hcov'⟩ := h.covered (gap ++ lexeme ++ g) d p (by rw [hp]; simp) hd
      have hoff : o + byteLength (gap ++ lexeme ++ g) = u.span.stop + byteLength g := by
        rw [hstop, byteLength_append, byteLength_append]; omega
      rw [hoff] at hcov'
      rcases List.mem_cons.1 hw with rfl | hw
      · have := hcov'.2
        omega
      · exact ⟨w, hw, hcov'⟩

end First

/-! ## All tokens -/

theorem isFirst_of_next? {r r' : Reader} {t : Token} (h : r.next? = some (t, r')) :
    ∃ gap lexeme, IsFirst r.offset gap lexeme r'.rest t ∧ r.rest = gap ++ lexeme ++ r'.rest ∧
      r'.offset = t.span.stop := by
  obtain ⟨c, cs, hd, hk, hl, hs, he, rfl⟩ := Reader.next?_eq_some_iff.1 h
  have hc : isLayout c = false := head?_dropWhile c (by rw [hd]; rfl)
  refine ⟨r.rest.takeWhile isLayout, (Lexeme.read c cs).spelling, ⟨?_, hs, by rw [he, hs], ?_⟩, ?_, rfl⟩
  · exact fun d hd => List.mem_takeWhile_imp hd
  · rw [hk, hl]
    exact spelled_read hc cs
  · rw [List.append_assoc, Lexeme.spelling_append_rest, ← hd, List.takeWhile_append_dropWhile]

/-- The scanner finds the tokens of what is unread, and there are no others. -/
theorem partitions_iff {r : Reader} {ws : List Token} :
    Partitions r.offset r.rest ws ↔ ws = r.body := by
  induction r using Reader.tokens.induct generalizing ws with
  | case1 r h =>
    rw [Reader.body_of_none h]
    exact partitions_layout (List.dropWhile_eq_nil_iff.1 (Reader.next?_eq_none_iff.1 h))
  | case2 r t r' h ih =>
    obtain ⟨gap, lexeme, hf, hr, ho⟩ := isFirst_of_next? h
    rw [Reader.body_of_some h, hr]
    constructor
    · intro hp
      obtain ⟨ws', rfl, hp'⟩ := hp.uncons hf
      rw [← ho] at hp'
      rw [ih.1 hp']
    · rintro rfl
      refine .cons hf ?_
      rw [← ho]
      exact ih.2 rfl

theorem lexed_body (source : String) : Lexed source (Reader.ofString source).body :=
  ((partitions_iff (r := .ofString source)).2 rfl).lexed

/-- The tokens that the scanner finds are the tokens of the source, and there are no others. -/
theorem isTokenization_iff (source : String) (ts : List Token) :
    IsTokenization source ts ↔ ts = tokenize source := by
  have hend : (Reader.ofString source).finish = source.utf8ByteSize := by
    simp [Reader.finish, Reader.ofString, byteLength_toList]
  have hp : ∀ ws, Lexed source ws ↔ ws = (Reader.ofString source).body := fun ws =>
    ⟨fun h => (partitions_iff (r := .ofString source)).1 h.partitions,
      fun h => ((partitions_iff (r := .ofString source)).2 h).lexed⟩
  rw [tokenize, Reader.tokens_eq_body_append, hend]
  simp only [IsTokenization, hp, exists_eq_left]
  rfl

end MonkeyLang.Token
