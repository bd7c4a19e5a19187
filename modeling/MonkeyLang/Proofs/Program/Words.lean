/-
The words of the canonical text of a plain program, one equation a form: what the parser gets to see of
that text.
-/
import MonkeyLang.Proofs.Program.Plain

namespace MonkeyLang

open Token (Word wordsOf wordsOf_append wordsOf_sign wordsOf_space wordsOf_newline wordsOf_nil Breaks
  breaks_cons breaks_nil)

def Expr.words (e : Expr) : List Word := wordsOf e.text.toList

def Stmt.words (s : Stmt) : List Word := wordsOf s.text.toList

/-- Items with commas between them. -/
def listed : List (List Word) → List Word
  | [] => []
  | w :: ws => w ++ ws.flatMap (.sign ',' :: ·)

theorem wordsOf_commas {ws : List (List Char)} {bs : List Char} (hq : ∀ w ∈ ws, '"' ∉ w)
    (hb : Breaks bs) :
    wordsOf ([',', ' '].intercalate ws ++ bs) = listed (ws.map wordsOf) ++ wordsOf bs := by
  induction ws with
  | nil => simp [listed]
  | cons w ws ih =>
    have hw := hq w (by simp)
    have ih := ih fun v hv => hq v (List.mem_cons_of_mem w hv)
    cases ws with
    | nil => simp [listed, wordsOf_append hw hb]
    | cons v ws =>
      simp only [List.intercalate_cons_cons, List.append_assoc, List.cons_append, List.nil_append]
      rw [wordsOf_append hw (breaks_cons rfl _), wordsOf_sign rfl, wordsOf_space, ih]
      simp [listed]

theorem wordsOf_lines {ws : List (List Char)} {bs : List Char} (hq : ∀ w ∈ ws, '"' ∉ w)
    (hb : Breaks bs) :
    wordsOf (['\n'].intercalate ws ++ bs) = ws.flatMap wordsOf ++ wordsOf bs := by
  induction ws with
  | nil => simp
  | cons w ws ih =>
    have hw := hq w (by simp)
    have ih := ih fun v hv => hq v (List.mem_cons_of_mem w hv)
    cases ws with
    | nil => simp [wordsOf_append hw hb]
    | cons v ws =>
      simp only [List.intercalate_cons_cons, List.append_assoc, List.cons_append, List.nil_append]
      rw [wordsOf_append hw (breaks_cons rfl _), wordsOf_newline, ih]
      simp

/-! ## Texts -/

theorem Text.digits_ne_nil (n : Nat) : Text.digits n ≠ [] := Nat.toDigits_ne_nil

theorem Expr.wordsOf_text {e : Expr} (h : e.plain = true) {bs : List Char} (hb : Breaks bs) :
    wordsOf (e.text.toList ++ bs) = e.words ++ wordsOf bs :=
  wordsOf_append (plainCases_quote.of_expr e h) hb

theorem wordsOf_texts {es : List Expr} (h : ∀ e ∈ es, e.plain = true) {bs : List Char} (hb : Breaks bs) :
    wordsOf ([',', ' '].intercalate ((Expr.texts es).map String.toList) ++ bs) =
      listed (es.map Expr.words) ++ wordsOf bs := by
  rw [Expr.texts_eq_map, List.map_map, wordsOf_commas ?_ hb, List.map_map]
  · rfl
  · intro w hw
    obtain ⟨e, he, rfl⟩ := List.mem_map.1 hw
    exact plainCases_quote.of_expr e (h e he)

theorem wordsOf_pairTexts {ps : List (Expr × Expr)}
    (h : ∀ q ∈ ps, q.1.plain = true ∧ q.2.plain = true) {bs : List Char} (hb : Breaks bs) :
    wordsOf ([',', ' '].intercalate ((Expr.pairTexts ps).map String.toList) ++ bs) =
      listed (ps.map fun q => q.1.words ++ .sign ':' :: q.2.words) ++ wordsOf bs := by
  have hq : ∀ q ∈ ps, wordsOf (q.1.text ++ ": " ++ q.2.text).toList =
      q.1.words ++ .sign ':' :: q.2.words := by
    intro q hq
    have ht : (q.1.text ++ ": " ++ q.2.text).toList = q.1.text.toList ++ ':' :: ' ' :: q.2.text.toList := by
      simp
    rw [ht, Expr.wordsOf_text (h q hq).1 (breaks_cons rfl _), wordsOf_sign rfl, wordsOf_space, Expr.words]
    rfl
  rw [Expr.pairTexts_eq_map, List.map_map, wordsOf_commas ?_ hb, List.map_map]
  · rw [← List.map_congr_left hq]
    rfl
  · intro w hw
    obtain ⟨q, hq, rfl⟩ := List.mem_map.1 hw
    have h₁ := plainCases_quote.of_expr q.1 (h q hq).1
    have h₂ := plainCases_quote.of_expr q.2 (h q hq).2
    simp [h₁, h₂]

theorem wordsOf_statementTexts {ss : List Stmt} (h : ∀ s ∈ ss, s.plain = true) {bs : List Char}
    (hb : Breaks bs) :
    wordsOf (['\n'].intercalate ((Stmt.texts ss).map String.toList) ++ bs) =
      ss.flatMap Stmt.words ++ wordsOf bs := by
  rw [Stmt.texts_eq_map, List.map_map, wordsOf_lines ?_ hb, List.flatMap_map]
  · rfl
  · intro w hw
    obtain ⟨s, hs, rfl⟩ := List.mem_map.1 hw
    exact plainCases_quote.of_stmt s (h s hs)

theorem wordsOf_name {name : String} (h : isName name = true) {bs : List Char} (hb : Breaks bs) :
    wordsOf (name.toList ++ bs) = ⟨.ident, name⟩ :: wordsOf bs := by
  obtain ⟨hne, hl, hk⟩ := isName_iff.1 h
  rw [wordsOf_append (quote_not_mem_of_isName h) hb, Token.wordsOf_letters _ hne hl, String.ofList_toList, hk]
  rfl

theorem wordsOf_names {names : List String} (h : ∀ x ∈ names, isName x = true) {bs : List Char}
    (hb : Breaks bs) :
    wordsOf ([',', ' '].intercalate (names.map String.toList) ++ bs) =
      listed (names.map fun x => [⟨.ident, x⟩]) ++ wordsOf bs := by
  have hn : ∀ x ∈ names, wordsOf x.toList = [⟨.ident, x⟩] := by
    intro x hx
    have hw := wordsOf_name (h x hx) breaks_nil
    rwa [List.append_nil, wordsOf_nil] at hw
  rw [wordsOf_commas ?_ hb, List.map_map]
  · rw [← List.map_congr_left hn]
    rfl
  · intro w hw
    obtain ⟨x, hx, rfl⟩ := List.mem_map.1 hw
    exact quote_not_mem_of_isName (h x hx)

/-- What the text of a plain expression opens with does not turn a `!` before it into `!=`. -/
theorem plainCases_first :
    PlainCases (fun e => ∃ c cs, e.text.toList = c :: cs ∧ c ≠ '=') (fun _ => True) where
  ident name h := by
    obtain ⟨hne, hl, -⟩ := isName_iff.1 h
    obtain ⟨c, cs, hc⟩ := List.exists_cons_of_ne_nil hne
    refine ⟨c, cs, hc, ?_⟩
    rintro rfl
    exact absurd (hl '=' (by simp [hc])) (by decide)
  int n h := by
    obtain ⟨c, cs, hc⟩ := List.exists_cons_of_ne_nil (Text.digits_ne_nil n.toInt.natAbs)
    refine ⟨c, cs, (toList_text_int h).trans hc, ?_⟩
    rintro rfl
    exact absurd (isDigit_of_mem_digits (n := n.toInt.natAbs) (c := '=') (by simp [hc])) (by decide)
  bool b := by cases b <;> exact ⟨_, _, rfl, by decide⟩
  array es _ := ⟨'[', _, by simp [Expr.text]; rfl, by decide⟩
  hash ps _ := by
    rw [Expr.text, hashText]
    split
    · exact ⟨'\x7b', _, rfl, by decide⟩
    · exact ⟨'\x7b', _, by simp; rfl, by decide⟩
  function params body _ _ _ := ⟨'f', _, by simp [Expr.text, functionText]; rfl, by decide⟩
  unary op e _ _ := ⟨'(', _, by simp [Expr.text]; rfl, by decide⟩
  binary op l r _ _ _ _ := ⟨'(', _, by simp [Expr.text]; rfl, by decide⟩
  call f args _ hf _ := by
    obtain ⟨c, cs, hc, hne⟩ := hf
    exact ⟨c, _, by simp [Expr.text, hc]; rfl, hne⟩
  index e i _ _ _ _ := ⟨'(', _, by simp [Expr.text]; rfl, by decide⟩
  bind _ _ _ _ _ := trivial
  ret _ _ _ := trivial
  expr _ _ _ := trivial

/-! ## Expressions -/

theorem words_ident {name : String} (h : isName name = true) :
    (Expr.ident name).words = [⟨.ident, name⟩] := by
  have hw := wordsOf_name h breaks_nil
  rwa [List.append_nil, wordsOf_nil] at hw

theorem words_int {n : Int64} (h : 0 ≤ n) :
    (Expr.int n).words = [⟨.int, String.ofList (Text.digits n.toInt.natAbs)⟩] := by
  rw [Expr.words, toList_text_int h]
  exact Token.wordsOf_digits _ (Text.digits_ne_nil _) fun _ hc => isDigit_of_mem_digits hc

theorem words_bool (b : Bool) :
    (Expr.bool b).words = [if b then ⟨.trueWord, "true"⟩ else ⟨.falseWord, "false"⟩] := by
  cases b
  · exact Token.wordsOf_keyword "false" (by decide) (by decide)
  · exact Token.wordsOf_keyword "true" (by decide) (by decide)

theorem words_array {es : List Expr} (h : ∀ e ∈ es, e.plain = true) :
    (Expr.array es).words = .sign '[' :: (listed (es.map Expr.words) ++ [.sign ']']) := by
  have ht : (Expr.array es).text.toList =
      '[' :: ([',', ' '].intercalate ((Expr.texts es).map String.toList) ++ [']']) := by simp [Expr.text]
  rw [Expr.words, ht, wordsOf_sign rfl, wordsOf_texts h (breaks_cons rfl _), wordsOf_sign rfl, wordsOf_nil]

theorem words_hash {ps : List (Expr × Expr)} (h : ∀ q ∈ ps, q.1.plain = true ∧ q.2.plain = true) :
    (Expr.hash ps).words =
      .sign '\x7b' :: (listed (ps.map fun q => q.1.words ++ .sign ':' :: q.2.words) ++ [.sign '\x7d']) := by
  have ht : (Expr.hash ps).text.toList = '\x7b' :: (if (Expr.pairTexts ps).isEmpty then ['\x7d'] else
      ' ' :: ([',', ' '].intercalate ((Expr.pairTexts ps).map String.toList) ++ [' ', '\x7d'])) := by
    rw [Expr.text, hashText]
    cases Expr.pairTexts ps <;> simp
  rw [Expr.words, ht, wordsOf_sign rfl]
  cases ps with
  | nil => rw [Expr.pairTexts, List.isEmpty_nil, if_pos rfl, wordsOf_sign rfl, wordsOf_nil]; rfl
  | cons q ps =>
    rw [if_neg (by simp [Expr.pairTexts]), wordsOf_space, wordsOf_pairTexts h (breaks_cons rfl _),
      wordsOf_space, wordsOf_sign rfl, wordsOf_nil]

theorem words_function {params : List String} {body : List Stmt} (hp : ∀ x ∈ params, isName x = true)
    (hb : ∀ s ∈ body, s.plain = true) :
    (Expr.function params body).words = ⟨.functionWord, "fn"⟩ :: .sign '(' ::
      (listed (params.map fun x => [⟨.ident, x⟩]) ++ .sign ')' :: .sign '\x7b' ::
        (body.flatMap Stmt.words ++ [.sign '\x7d'])) := by
  have ht : (Expr.function params body).text.toList = "fn".toList ++ '(' ::
      ([',', ' '].intercalate (params.map String.toList) ++ ')' :: ' ' :: '\x7b' ::
        (if body.isEmpty then ['\x7d']
          else ' ' :: (['\n'].intercalate ((Stmt.texts body).map String.toList) ++ [' ', '\x7d']))) := by
    rw [Expr.text, functionText]
    cases body <;> simp [Stmt.texts]
  have hf : wordsOf "fn".toList = [⟨.functionWord, "fn"⟩] :=
    Token.wordsOf_keyword "fn" (by decide) (by decide)
  rw [Expr.words, ht, wordsOf_append (by decide) (breaks_cons rfl _), hf, wordsOf_sign rfl,
    wordsOf_names hp (breaks_cons rfl _), wordsOf_sign rfl, wordsOf_space, wordsOf_sign rfl]
  cases body with
  | nil => rw [List.isEmpty_nil, if_pos rfl, wordsOf_sign rfl, wordsOf_nil]; rfl
  | cons s ss =>
    rw [List.isEmpty_cons, if_neg (by decide), wordsOf_space, wordsOf_statementTexts hb (breaks_cons rfl _),
      wordsOf_space, wordsOf_sign rfl, wordsOf_nil]
    rfl

theorem words_unary {op : UnaryOp} {e : Expr} (h : e.plain = true) :
    (Expr.unary op e).words = .sign '(' :: .sign (if op = .not then '!' else '-') ::
      (e.words ++ [.sign ')']) := by
  cases op with
  | neg =>
    have ht : (Expr.unary .neg e).text.toList = '(' :: '-' :: (e.text.toList ++ [')']) := by
      simp [Expr.text, UnaryOp.sign]
    rw [Expr.words, ht, wordsOf_sign rfl, wordsOf_sign rfl, Expr.wordsOf_text h (breaks_cons rfl _),
      wordsOf_sign rfl, wordsOf_nil]
    rfl
  | not =>
    have ht : (Expr.unary .not e).text.toList = '(' :: '!' :: (e.text.toList ++ [')']) := by
      simp [Expr.text, UnaryOp.sign]
    obtain ⟨c, cs, hc, hne⟩ := plainCases_first.of_expr e h
    have hr : Token.Lexeme.read '!' (e.text.toList ++ [')']) =
        ⟨.bang, "!", ['!'], e.text.toList ++ [')']⟩ :=
      Token.Lexeme.read_single rfl rfl (by decide) fun _ => by simp [hc, hne]
    rw [Expr.words, ht, wordsOf_sign rfl, Token.wordsOf_cons rfl, hr, Expr.wordsOf_text h (breaks_cons rfl _),
      wordsOf_sign rfl, wordsOf_nil]
    rfl

def BinaryOp.kind : BinaryOp → Token.Kind
  | add => .plus
  | sub => .minus
  | mul => .asterisk
  | div => .slash
  | less => .less
  | greater => .greater
  | equal => .equal
  | notEqual => .notEqual

theorem wordsOf_operator (op : BinaryOp) (cs : List Char) :
    wordsOf (op.sign.toList ++ ' ' :: cs) = ⟨op.kind, op.sign⟩ :: wordsOf cs := by
  rw [← wordsOf_space cs]
  cases op <;> exact Token.wordsOf_cons rfl _

theorem words_binary {op : BinaryOp} {l r : Expr} (hl : l.plain = true) (hr : r.plain = true) :
    (Expr.binary op l r).words =
      .sign '(' :: (l.words ++ ⟨op.kind, op.sign⟩ :: (r.words ++ [.sign ')'])) := by
  have ht : (Expr.binary op l r).text.toList = '(' :: (l.text.toList ++ ' ' :: (op.sign.toList ++
      ' ' :: (r.text.toList ++ [')']))) := by simp [Expr.text]
  rw [Expr.words, ht, wordsOf_sign rfl, Expr.wordsOf_text hl (breaks_cons rfl _), wordsOf_space,
    wordsOf_operator, Expr.wordsOf_text hr (breaks_cons rfl _), wordsOf_sign rfl, wordsOf_nil]

theorem words_call {f : Expr} {args : List Expr} (hf : f.plain = true) (ha : ∀ e ∈ args, e.plain = true) :
    (Expr.call f args).words = f.words ++ .sign '(' :: (listed (args.map Expr.words) ++ [.sign ')']) := by
  have ht : (Expr.call f args).text.toList = f.text.toList ++
      '(' :: ([',', ' '].intercalate ((Expr.texts args).map String.toList) ++ [')']) := by simp [Expr.text]
  rw [Expr.words, ht, Expr.wordsOf_text hf (breaks_cons rfl _), wordsOf_sign rfl,
    wordsOf_texts ha (breaks_cons rfl _), wordsOf_sign rfl, wordsOf_nil]

theorem words_index {e i : Expr} (he : e.plain = true) (hi : i.plain = true) :
    (Expr.index e i).words =
      .sign '(' :: (e.words ++ .sign '[' :: (i.words ++ [.sign ']', .sign ')'])) := by
  have ht : (Expr.index e i).text.toList =
      '(' :: (e.text.toList ++ '[' :: (i.text.toList ++ [']', ')'])) := by simp [Expr.text]
  rw [Expr.words, ht, wordsOf_sign rfl, Expr.wordsOf_text he (breaks_cons rfl _), wordsOf_sign rfl,
    Expr.wordsOf_text hi (breaks_cons rfl _), wordsOf_sign rfl, wordsOf_sign rfl, wordsOf_nil]

/-! ## Statements -/

theorem words_bind {name : String} {e : Expr} (hn : isName name = true) (he : e.plain = true) :
    (Stmt.bind name e).words =
      ⟨.letWord, "let"⟩ :: ⟨.ident, name⟩ :: .sign '=' :: (e.words ++ [.sign ';']) := by
  have ht : (Stmt.bind name e).text.toList = "let".toList ++ ' ' :: (name.toList ++ ' ' :: '=' :: ' ' ::
      (e.text.toList ++ [';'])) := by simp [Stmt.text]
  have hl : wordsOf "let".toList = [⟨.letWord, "let"⟩] :=
    Token.wordsOf_keyword "let" (by decide) (by decide)
  have ha : ∀ cs, wordsOf ('=' :: ' ' :: cs) = .sign '=' :: wordsOf cs := fun cs =>
    (Token.wordsOf_cons rfl _).trans (congrArg _ (wordsOf_space cs))
  rw [Stmt.words, ht, wordsOf_append (by decide) (breaks_cons rfl _), hl, wordsOf_space,
    wordsOf_name hn (breaks_cons rfl _), wordsOf_space, ha, Expr.wordsOf_text he (breaks_cons rfl _),
    wordsOf_sign rfl, wordsOf_nil]
  rfl

theorem words_ret {e : Expr} (he : e.plain = true) :
    (Stmt.ret (some e)).words = ⟨.returnWord, "return"⟩ :: (e.words ++ [.sign ';']) := by
  have ht : (Stmt.ret (some e)).text.toList = "return".toList ++ ' ' :: (e.text.toList ++ [';']) := by
    simp [Stmt.text]
  have hr : wordsOf "return".toList = [⟨.returnWord, "return"⟩] :=
    Token.wordsOf_keyword "return" (by decide) (by decide)
  rw [Stmt.words, ht, wordsOf_append (by decide) (breaks_cons rfl _), hr, wordsOf_space,
    Expr.wordsOf_text he (breaks_cons rfl _), wordsOf_sign rfl, wordsOf_nil]
  rfl

theorem words_expr (e : Expr) : (Stmt.expr e).words = e.words := by
  rw [Stmt.words, Stmt.text, Expr.words]

end MonkeyLang
