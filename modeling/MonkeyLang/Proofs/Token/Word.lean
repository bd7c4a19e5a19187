/-
The words of a text: its tokens without their places. Where a token stands does not depend on what it
is, so the words can be read off the characters alone, and a text may be cut in two wherever no word
runs across the cut (`Reader.body_append`, `wordsOf_append`).
-/
import MonkeyLang.Proofs.Token.Reader

namespace MonkeyLang.Token

open Text (byteLength byteLength_append)

/-- A token without its place. -/
structure Word where
  kind : Kind
  literal : String
deriving DecidableEq, Repr

def word (t : Token) : Word := ⟨t.kind, t.literal⟩

@[simp] theorem kind_word (t : Token) : t.word.kind = t.kind := rfl

@[simp] theorem literal_word (t : Token) : t.word.literal = t.literal := rfl

def wordsOf (cs : List Char) : List Word := (Reader.mk 0 cs).body.map word

/-! ## Reading on -/

theorem Reader.body_eq_of_dropWhile {r : Reader} {c : Char} {cs : List Char}
    (h : r.rest.dropWhile isLayout = c :: cs) : ∃ (t : Token) (r' : Reader), r.body = t :: r'.body ∧
      t.word = ⟨(Lexeme.read c cs).kind, (Lexeme.read c cs).literal⟩ ∧ r'.rest = (Lexeme.read c cs).rest := by
  cases hn : r.next? with
  | none => rw [next?_eq_none_iff.1 hn] at h; cases h
  | some q =>
    obtain ⟨c', cs', h', hk, hl, -, -, hr⟩ := next?_eq_some_iff.1 hn
    obtain ⟨rfl, rfl⟩ := List.cons.inj (h'.symm.trans h)
    exact ⟨q.1, q.2, body_of_some hn, by rw [word, hk, hl], by rw [hr]⟩

/-- The offset that reading starts at plays no part. -/
theorem Reader.map_word_body (r : Reader) : r.body.map word = wordsOf r.rest := by
  induction hn : r.rest.length using Nat.strongRecOn generalizing r with
  | ind n ih =>
    subst hn
    cases hd : r.rest.dropWhile isLayout with
    | nil =>
      rw [wordsOf, body_of_none (r := r) (next?_eq_none_iff.2 hd),
        body_of_none (r := ⟨0, r.rest⟩) (next?_eq_none_iff.2 hd)]
    | cons c cs =>
      obtain ⟨t, r₁, h₁, ht, hr₁⟩ := body_eq_of_dropWhile hd
      obtain ⟨u, r₂, h₂, hu, hr₂⟩ := body_eq_of_dropWhile (r := ⟨0, r.rest⟩) hd
      have hlt : (Lexeme.read c cs).rest.length < r.rest.length := by
        have h := (List.dropWhile_sublist (l := r.rest) isLayout).length_le
        rw [hd, List.length_cons] at h
        have := Lexeme.length_rest_le c cs
        omega
      rw [wordsOf, h₁, h₂, List.map_cons, List.map_cons, ht, hu, ih _ (by rwa [hr₁]) r₁ rfl,
        ih _ (by rwa [hr₂]) r₂ rfl, hr₁, hr₂]

theorem map_word_tokenize (source : String) : (tokenize source).dropLast.map word = wordsOf source.toList :=
  Reader.map_word_body (.ofString source)

theorem words_tokenize (source : String) :
    (tokenize source).map word = wordsOf source.toList ++ [⟨.endOfInput, ""⟩] := by
  rw [tokenize, Reader.tokens_eq_body_append, List.map_append, Reader.map_word_body]
  rfl

@[simp] theorem wordsOf_nil : wordsOf [] = [] := by
  rw [wordsOf, Reader.body_of_none (Reader.next?_eq_none_iff.2 rfl), List.map_nil]

theorem wordsOf_cons {c : Char} (h : isLayout c = false) (cs : List Char) :
    wordsOf (c :: cs) = ⟨(Lexeme.read c cs).kind, (Lexeme.read c cs).literal⟩ ::
      wordsOf (Lexeme.read c cs).rest := by
  have hd : List.dropWhile isLayout (c :: cs) = c :: cs := by simp [h]
  obtain ⟨t, r, h, ht, hr⟩ := Reader.body_eq_of_dropWhile (r := ⟨0, c :: cs⟩) hd
  rw [wordsOf, h, List.map_cons, ht, Reader.map_word_body, hr]

theorem wordsOf_layout {c : Char} (h : isLayout c = true) (cs : List Char) :
    wordsOf (c :: cs) = wordsOf cs := by
  have hd : List.dropWhile isLayout (c :: cs) = cs.dropWhile isLayout := by simp [h]
  cases he : cs.dropWhile isLayout with
  | nil =>
    rw [wordsOf, wordsOf, Reader.body_of_none (Reader.next?_eq_none_iff.2 (hd.trans he)),
      Reader.body_of_none (Reader.next?_eq_none_iff.2 he)]
  | cons d ds =>
    obtain ⟨t, r, h₁, ht, hr⟩ := Reader.body_eq_of_dropWhile (r := ⟨0, c :: cs⟩) (hd.trans he)
    obtain ⟨u, s, h₂, hu, hs⟩ := Reader.body_eq_of_dropWhile (r := ⟨0, cs⟩) he
    rw [wordsOf, wordsOf, h₁, h₂, List.map_cons, List.map_cons, ht, hu, Reader.map_word_body,
      Reader.map_word_body, hr, hs]

theorem wordsOf_layout_append {as : List Char} (h : ∀ c ∈ as, isLayout c = true) (cs : List Char) :
    wordsOf (as ++ cs) = wordsOf cs := by
  induction as with
  | nil => rfl
  | cons c as ih =>
    obtain ⟨hc, has⟩ := List.forall_mem_cons.1 h
    rw [List.cons_append, wordsOf_layout hc, ih has]

@[simp] theorem wordsOf_space (cs : List Char) : wordsOf (' ' :: cs) = wordsOf cs :=
  wordsOf_layout rfl cs

@[simp] theorem wordsOf_newline (cs : List Char) : wordsOf ('\n' :: cs) = wordsOf cs :=
  wordsOf_layout rfl cs

/-- The word that a sign of one character is. -/
def Word.sign (c : Char) : Word := ⟨Kind.ofSign c, String.ofList [c]⟩

/-- A sign of one character that no longer sign begins with. -/
def isSingle (c : Char) : Bool := Kind.ofSign c ∉ [.illegal, .assign, .bang]

theorem Lexeme.read_of_isSingle {c : Char} (h : isSingle c = true) (cs : List Char) :
    Lexeme.read c cs = ⟨Kind.ofSign c, String.ofList [c], [c], cs⟩ := by
  unfold isSingle Kind.ofSign at h
  split at h <;> first | rfl | exact absurd h (by decide)

theorem wordsOf_sign {c : Char} (h : isSingle c = true) (cs : List Char) :
    wordsOf (c :: cs) = .sign c :: wordsOf cs := by
  have hl : isLayout c = false := by
    unfold isSingle Kind.ofSign at h
    split at h <;> first | rfl | exact absurd h (by decide)
  rw [wordsOf_cons hl, Lexeme.read_of_isSingle h, Word.sign]

/-! ## Runs -/

theorem wordsOf_letters (run : List Char) (hne : run ≠ []) (hr : ∀ c ∈ run, isLetter c = true) :
    wordsOf run = [⟨Kind.ofWord (String.ofList run), String.ofList run⟩] := by
  obtain ⟨c, run, rfl⟩ := List.exists_cons_of_ne_nil hne
  have hc := hr c (by simp)
  have hr' : ∀ d ∈ run, isLetter d = true := fun d hd => hr d (List.mem_cons_of_mem c hd)
  have ht : run.takeWhile isLetter = run := List.takeWhile_eq_self_iff.2 hr'
  have hd : run.dropWhile isLetter = [] := List.dropWhile_eq_nil_iff.2 hr'
  rw [wordsOf_cons (isLayout_of_isLetter hc), Lexeme.read_letter hc, ht, hd, wordsOf_nil]

theorem wordsOf_keyword (w : String) (hne : w.toList ≠ []) (hw : w.toList.all isLetter = true) :
    wordsOf w.toList = [⟨Kind.ofWord w, w⟩] := by
  have h := wordsOf_letters w.toList hne (List.all_eq_true.1 hw)
  rwa [String.ofList_toList] at h

theorem wordsOf_digits (run : List Char) (hne : run ≠ []) (hr : ∀ c ∈ run, isDigit c = true) :
    wordsOf run = [⟨.int, String.ofList run⟩] := by
  obtain ⟨c, run, rfl⟩ := List.exists_cons_of_ne_nil hne
  have hc := hr c (by simp)
  have hr' : ∀ d ∈ run, isDigit d = true := fun d hd => hr d (List.mem_cons_of_mem c hd)
  have ht : run.takeWhile isDigit = run := List.takeWhile_eq_self_iff.2 hr'
  have hd : run.dropWhile isDigit = [] := List.dropWhile_eq_nil_iff.2 hr'
  rw [wordsOf_cons (isLayout_of_isDigit hc), Lexeme.read_digit hc, ht, hd, wordsOf_nil]

/-! ## Cutting a text in two -/

/-- A character with which no word goes on that began before it, a string apart. -/
def isBreak (c : Char) : Bool := !isLetter c && !isDigit c && c != '='

def Breaks (cs : List Char) : Prop := ∀ c ∈ cs.head?, isBreak c = true

theorem breaks_nil : Breaks [] := by simp [Breaks]

theorem breaks_cons {c : Char} (h : isBreak c = true) (cs : List Char) : Breaks (c :: cs) := by
  simpa [Breaks] using h

theorem Lexeme.read_append {c : Char} (hc : c ≠ '"') (cs : List Char) {bs : List Char} (hb : Breaks bs) :
    Lexeme.read c (cs ++ bs) =
      ⟨(Lexeme.read c cs).kind, (Lexeme.read c cs).literal, (Lexeme.read c cs).spelling,
        (Lexeme.read c cs).rest ++ bs⟩ := by
  have hbreak : ∀ d ∈ bs.head?, isLetter d = false ∧ isDigit d = false ∧ d ≠ '=' := by
    intro d hd
    simpa [isBreak, and_assoc] using hb d hd
  by_cases hl : isLetter c = true
  · obtain ⟨ht, hd⟩ := takeWhile_append_of_head (fun d hd => (hbreak d hd).1) cs
    simp only [Lexeme.read_letter hl, ht, hd]
  · by_cases hg : isDigit c = true
    · obtain ⟨ht, hd⟩ := takeWhile_append_of_head (fun d hd => (hbreak d hd).2.1) cs
      simp only [Lexeme.read_digit hg, ht, hd]
    · -- a sign of two characters is not cut, because the second part does not begin with `=`
      have hl : isLetter c = false := by simpa using hl
      have hg : isDigit c = false := by simpa using hg
      by_cases hs : c = '=' ∨ c = '!'
      · cases cs with
        | nil =>
          have hbs : bs.head? ≠ some '=' := fun h => (hbreak '=' h).2.2 rfl
          rw [List.nil_append, Lexeme.read_single hl hg hc fun _ => hbs,
            Lexeme.read_single hl hg hc fun _ => by simp]
          rfl
        | cons d ds =>
          by_cases hd : d = '='
          · subst hd
            rw [List.cons_append, Lexeme.read_double hs, Lexeme.read_double hs]
          · rw [List.cons_append, Lexeme.read_single hl hg hc fun _ => by simpa using hd,
              Lexeme.read_single hl hg hc fun _ => by simpa using hd]
            rfl
      · rw [Lexeme.read_single hl hg hc fun h => absurd h hs,
          Lexeme.read_single hl hg hc fun h => absurd h hs]

/-- The words of a text with no quote in its first part are those of its two parts. -/
theorem wordsOf_append {as bs : List Char} (hq : '"' ∉ as) (hb : Breaks bs) :
    wordsOf (as ++ bs) = wordsOf as ++ wordsOf bs := by
  -- by the length of the first part, which each word makes shorter
  induction hn : as.length using Nat.strongRecOn generalizing as with
  | ind n ih =>
    subst hn
    cases as with
    | nil => simp
    | cons c cs =>
      cases hl : isLayout c with
      | true =>
        rw [List.cons_append, wordsOf_layout hl, wordsOf_layout hl]
        exact ih _ (by simp) (fun h => hq (List.mem_cons_of_mem c h)) rfl
      | false =>
        have hrest : '"' ∉ (Lexeme.read c cs).rest := by
          intro h
          apply hq
          rw [← Lexeme.spelling_append_rest c cs]
          exact List.mem_append_right _ h
        have hlt : (Lexeme.read c cs).rest.length < (c :: cs).length :=
          Nat.lt_succ_of_le (Lexeme.length_rest_le c cs)
        have hc : c ≠ '"' := fun h => hq (by simp [h])
        rw [List.cons_append, wordsOf_cons hl, wordsOf_cons hl, Lexeme.read_append hc cs hb]
        simp only [List.cons_append, ih _ hlt hrest rfl]

/-- A quote that is never closed. -/
def Word.Unterminated (w : Word) : Prop := w.kind = .illegal ∧ w.literal = "\""

instance (w : Word) : Decidable w.Unterminated := inferInstanceAs (Decidable (_ ∧ _))

/-- A string that is closed does not run across the cut either. -/
theorem Lexeme.read_append_of_terminated {c : Char} {cs bs : List Char}
    (ht : ¬ Word.Unterminated ⟨(Lexeme.read c cs).kind, (Lexeme.read c cs).literal⟩) (hb : Breaks bs) :
    Lexeme.read c (cs ++ bs) =
      ⟨(Lexeme.read c cs).kind, (Lexeme.read c cs).literal, (Lexeme.read c cs).spelling,
        (Lexeme.read c cs).rest ++ bs⟩ := by
  by_cases hc : c = '"'
  · subst hc
    by_cases hq : '"' ∈ cs
    · obtain ⟨body, rest, rfl, hbody⟩ := List.eq_append_cons_of_mem hq
      rw [List.append_assoc, List.cons_append, Lexeme.read_closed hbody, Lexeme.read_closed hbody]
    · rw [Lexeme.read_unclosed hq] at ht
      exact absurd ⟨rfl, rfl⟩ ht
  · exact Lexeme.read_append hc cs hb

namespace Reader

variable {n : Nat} {as bs : List Char}

/-- Layout before a text only moves it. -/
theorem next?_layout (h : as.dropWhile isLayout = []) :
    (Reader.mk n (as ++ bs)).next? = (Reader.mk (n + byteLength as) bs).next? := by
  have hl : ∀ c ∈ as, isLayout c = true := List.dropWhile_eq_nil_iff.1 h
  unfold next?
  simp only [List.dropWhile_append_of_pos hl, List.takeWhile_append_of_pos hl, byteLength_append, Nat.add_assoc]

theorem body_eq_of_next? {r r' : Reader} (h : r.next? = r'.next?) : r.body = r'.body := by
  cases hn : r.next? with
  | none => rw [body_of_none hn, body_of_none (h.symm.trans hn)]
  | some q => rw [body_of_some hn, body_of_some (h.symm.trans hn)]

/-- The first token of a text is the first one of its first part, if that part has any and it is not a
string that goes on. -/
theorem next?_append {t : Token} {r : Reader} (h : (Reader.mk n as).next? = some (t, r))
    (ht : ¬ t.word.Unterminated) (hb : Breaks bs) :
    (Reader.mk n (as ++ bs)).next? = some (t, ⟨r.offset, r.rest ++ bs⟩) := by
  obtain ⟨c, cs, hd, hk, hl, hs, hstop, rfl⟩ := next?_eq_some_iff.1 h
  have hread : Lexeme.read c (cs ++ bs) = _ :=
    Lexeme.read_append_of_terminated (by rwa [← hk, ← hl]) hb
  have hc : isLayout c = false := by
    have hhead := List.head?_dropWhile_not isLayout as
    rwa [hd] at hhead
  have hgap : ∀ d ∈ as.takeWhile isLayout, isLayout d = true := fun d hd => List.mem_takeWhile_imp hd
  have has : as ++ bs = as.takeWhile isLayout ++ c :: (cs ++ bs) := by
    rw [← List.cons_append, ← hd, ← List.append_assoc, List.takeWhile_append_dropWhile]
  have hpost : ∀ d ∈ (c :: (cs ++ bs)).head?, isLayout d = false := by simpa using hc
  obtain ⟨htake, hdrop⟩ := takeWhile_run hgap hpost
  rw [has]
  exact next?_eq_some_iff.2 ⟨c, cs ++ bs, hdrop, by rw [hread, hk], by rw [hread, hl], by rw [hs, htake],
    by rw [hread, hstop], by rw [hread]⟩

/-- The tokens of a text are those of its two parts, if no string of the first part goes on. -/
theorem body_append (hb : Breaks bs) (ht : ∀ t ∈ (Reader.mk n as).body, ¬ t.word.Unterminated) :
    (Reader.mk n (as ++ bs)).body = (Reader.mk n as).body ++ (Reader.mk (n + byteLength as) bs).body := by
  -- by the tokens of the first part; once it is used up, only layout of it is left
  generalize hr : Reader.mk n as = r at ht
  induction r using Reader.tokens.induct generalizing n as with
  | case1 r h =>
    subst hr
    rw [body_of_none h, List.nil_append, body_eq_of_next? (next?_layout (next?_eq_none_iff.1 h))]
  | case2 r t r' h ih =>
    subst hr
    rw [body_of_some h, List.forall_mem_cons] at ht
    rw [body_of_some h, body_of_some (next?_append h ht.1 hb), List.cons_append, ih rfl ht.2]
    have hfinish : r'.offset + byteLength r'.rest = n + byteLength as := finish_of_next? h
    rw [hfinish]

end Reader

/-- The words of a text are those of its two parts, if all words of the first part are legal. -/
theorem wordsOf_append_of_legal {as bs : List Char} (hl : ∀ w ∈ wordsOf as, w.kind ≠ .illegal)
    (hb : Breaks bs) : wordsOf (as ++ bs) = wordsOf as ++ wordsOf bs := by
  have ht : ∀ t ∈ (Reader.mk 0 as).body, ¬ t.word.Unterminated :=
    fun t ht hu => hl t.word (List.mem_map_of_mem ht) hu.1
  rw [wordsOf, Reader.body_append hb ht, List.map_append, Reader.map_word_body ⟨_, bs⟩]
  rfl

end MonkeyLang.Token
