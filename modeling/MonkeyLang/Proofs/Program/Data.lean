/-
Data spelled out as a program: numbers, truth values, and arrays and hashes of data. The text in which
such a value is printed is a source for the expression that spells it out (`parse_print`). It is
not the canonical text of that expression, for a negative number is printed without parentheses; so the
number is read as a whole only where nothing goes on with it, which the commas and brackets around it
ensure.
-/
import MonkeyLang.Proofs.Parse.Joined
import MonkeyLang.Proofs.Program.RoundTrip
import MonkeyLang.Value.Outline

namespace MonkeyLang

open Token (Word wordsOf wordsOf_append wordsOf_sign wordsOf_space wordsOf_nil breaks_cons breaks_nil)
open MonkeyLang.Parser Grammar

namespace Expr

/-- An expression that spells out data. -/
inductive IsData : Expr → Prop where
  | int {n : Int64} (h : 0 ≤ n) : IsData (.int n)
  | negative {n : Int64} (h : 0 < n) : IsData (.unary .neg (.int n))
  | bool (b : Bool) : IsData (.bool b)
  | array {es : List Expr} (h : ∀ e ∈ es, IsData e) : IsData (.array es)
  | hash {ps : List (Expr × Expr)} (hk : ∀ q ∈ ps, IsData q.1) (hv : ∀ q ∈ ps, IsData q.2) : IsData (.hash ps)

mutual

/-- The layout of the value that data spells out. -/
def outline : Expr → Outline
  | .int n => .int n
  | .unary .neg (.int n) => .int (-n)
  | .bool b => .bool b
  | .array es => .array (outlines es)
  | .hash ps => .hash (pairOutlines ps)
  | _ => .null

def outlines : List Expr → List Outline
  | [] => []
  | e :: es => e.outline :: outlines es

def pairOutlines : List (Expr × Expr) → List (Outline × Outline)
  | [] => []
  | (k, v) :: ps => (k.outline, v.outline) :: pairOutlines ps

end

theorem outlines_eq_map (es : List Expr) : outlines es = es.map outline := by
  induction es with
  | nil => rfl
  | cons e es ih => rw [outlines, ih, List.map_cons]

theorem pairOutlines_eq_map (ps : List (Expr × Expr)) :
    pairOutlines ps = ps.map fun q => (q.1.outline, q.2.outline) := by
  induction ps with
  | nil => rfl
  | cons q ps ih => rw [pairOutlines, ih, List.map_cons]

end Expr

namespace Outline

theorem texts_eq_map (os : List Outline) : texts os = os.map text := by
  induction os with
  | nil => rfl
  | cons o os ih => rw [texts, ih, List.map_cons]

theorem pairTexts_eq_map (ps : List (Outline × Outline)) :
    pairTexts ps = ps.map fun q => q.1.text ++ ": " ++ q.2.text := by
  induction ps with
  | nil => rfl
  | cons q ps ih => rw [pairTexts, ih, List.map_cons]

end Outline

/-! ## Texts in brackets -/

section Brackets

variable {ts : List String} (h : ∀ t ∈ ts, '"' ∉ t.toList)

include h

theorem quote_not_mem_arrayText : '"' ∉ ("[" ++ ", ".intercalate ts ++ "]").toList := by
  simp [quote_not_mem_joined [',', ' '] ts (by decide) h]

theorem quote_not_mem_hashText : '"' ∉ (hashText ts).toList := by
  have hs := quote_not_mem_joined [',', ' '] ts (by decide) h
  unfold hashText
  split <;> simp [hs]

theorem wordsOf_arrayText : wordsOf ("[" ++ ", ".intercalate ts ++ "]").toList =
    .sign '[' :: (listed (ts.map fun t => wordsOf t.toList) ++ [.sign ']']) := by
  have ht : ("[" ++ ", ".intercalate ts ++ "]").toList =
      '[' :: ([',', ' '].intercalate (ts.map String.toList) ++ [']']) := by simp
  rw [ht, wordsOf_sign rfl, wordsOf_commas (List.forall_mem_map.2 h) (breaks_cons rfl _), wordsOf_sign rfl,
    wordsOf_nil, List.map_map]
  rfl

theorem wordsOf_hashText : wordsOf (hashText ts).toList =
    .sign '\x7b' :: (listed (ts.map fun t => wordsOf t.toList) ++ [.sign '\x7d']) := by
  cases ts with
  | nil =>
    have ht : (hashText []).toList = ['\x7b', '\x7d'] := rfl
    rw [ht, wordsOf_sign rfl, wordsOf_sign rfl, wordsOf_nil]
    rfl
  | cons t ts =>
    have ht : (hashText (t :: ts)).toList =
        '\x7b' :: ' ' :: ([',', ' '].intercalate ((t :: ts).map String.toList) ++ [' ', '\x7d']) := by
      simp [hashText]
    rw [ht, wordsOf_sign rfl, wordsOf_space, wordsOf_commas (List.forall_mem_map.2 h) (breaks_cons rfl _),
      wordsOf_space, wordsOf_sign rfl, wordsOf_nil, List.map_map]
    rfl

end Brackets

/-! ## Printed data -/

/-- Of all integers only the smallest has no opposite. -/
theorem toInt_neg_of_ne_minValue {n : Int64} (h : n ≠ Int64.minValue) : (-n).toInt = -n.toInt := by
  have hmin : n.toInt ≠ -2 ^ 63 := fun h' => h (Int64.toInt_inj.1 (h'.trans Int64.toInt_minValue.symm))
  have hle := n.le_toInt
  have hlt := n.toInt_lt
  rw [Int64.toInt_neg, Int.bmod_eq_of_le (by omega) (by omega)]

namespace Expr

/-- The text in which the value that data spells out is printed. -/
def print (e : Expr) : String := e.outline.text

theorem print_array (es : List Expr) : (Expr.array es).print = "[" ++ ", ".intercalate (es.map print) ++ "]" := by
  rw [print, outline, Outline.text, Outline.texts_eq_map, outlines_eq_map, List.map_map]
  rfl

theorem print_hash (ps : List (Expr × Expr)) :
    (Expr.hash ps).print = hashText (ps.map fun q => q.1.print ++ ": " ++ q.2.print) := by
  rw [print, outline, Outline.text, Outline.pairTexts_eq_map, pairOutlines_eq_map, List.map_map]
  rfl

theorem toList_print_int {n : Int64} (h : 0 ≤ n) : (Expr.int n).print.toList = Text.digits n.toInt.natAbs :=
  toList_text_int h

theorem toList_print_negative {n : Int64} (h : 0 < n) :
    (Expr.unary .neg (.int n)).print.toList = '-' :: (Expr.int n).print.toList := by
  have hpos : 0 < n.toInt := by simpa using Int64.lt_iff_toInt_lt.1 h
  have hneg := toInt_neg_of_ne_minValue (n := n) (by rintro rfl; exact absurd h (by decide))
  rw [toList_print_int (Int64.le_of_lt h), print, outline, Outline.text, Text.signedDecimal, hneg,
    if_pos (by omega), String.toList_ofList, Int.natAbs_neg]

theorem IsData.quote_not_mem {e : Expr} (h : e.IsData) : '"' ∉ e.print.toList := by
  induction h with
  | int h =>
    rw [toList_print_int h]
    exact quote_not_mem_digits _
  | negative h =>
    rw [toList_print_negative h, toList_print_int (Int64.le_of_lt h)]
    simp [quote_not_mem_digits]
  | bool b => cases b <;> decide
  | array h ih =>
    rw [print_array]
    exact quote_not_mem_arrayText (List.forall_mem_map.2 ih)
  | hash hk hv ihk ihv =>
    rw [print_hash]
    exact quote_not_mem_hashText (List.forall_mem_map.2 fun q hq => by simp [ihk q hq, ihv q hq])

/-- The words of the printed text. -/
def printedWords (e : Expr) : List Word := wordsOf e.print.toList

theorem printedWords_negative {n : Int64} (h : 0 < n) :
    (Expr.unary .neg (.int n)).printedWords = .sign '-' :: (Expr.int n).words := by
  rw [printedWords, toList_print_negative h, wordsOf_sign rfl]
  rfl

theorem printedWords_array {es : List Expr} (h : ∀ e ∈ es, e.IsData) :
    (Expr.array es).printedWords = .sign '[' :: (listed (es.map printedWords) ++ [.sign ']']) := by
  rw [printedWords, print_array, wordsOf_arrayText, List.map_map]
  · rfl
  · exact List.forall_mem_map.2 fun e he => (h e he).quote_not_mem

theorem printedWords_hash {ps : List (Expr × Expr)} (hk : ∀ q ∈ ps, q.1.IsData) (hv : ∀ q ∈ ps, q.2.IsData) :
    (Expr.hash ps).printedWords = .sign '\x7b' ::
      (listed (ps.map fun q => q.1.printedWords ++ .sign ':' :: q.2.printedWords) ++ [.sign '\x7d']) := by
  have hpair : ∀ q ∈ ps, wordsOf (q.1.print ++ ": " ++ q.2.print).toList =
      q.1.printedWords ++ .sign ':' :: q.2.printedWords := by
    intro q hq
    have ht : (q.1.print ++ ": " ++ q.2.print).toList = q.1.print.toList ++ ':' :: ' ' :: q.2.print.toList := by
      simp
    rw [ht, wordsOf_append (hk q hq).quote_not_mem (breaks_cons rfl _), wordsOf_sign rfl, wordsOf_space]
    rfl
  rw [printedWords, print_hash, wordsOf_hashText, List.map_map]
  · rw [← List.map_congr_left hpair]
    rfl
  · exact List.forall_mem_map.2 fun q hq => by simp [(hk q hq).quote_not_mem, (hv q hq).quote_not_mem]

end Expr

/-! ## Reading -/

variable {n : Nat} {es : List ParseError}

/-- A form that opens with a word of its own and is read as one operand. -/
theorem ReadsWhole.of_operand {w : Word} {ws : List Word} {e : Expr} (hw : startsOperand w.kind = true)
    (h : ∀ ⦃ts rest⦄, Spells (w :: ws) ts rest → ∀ m, ts.length ≤ m + 1 →
      Continuation.ofKind? (headKind rest) = none → ∃ t, Reads n es (operand (expr m)) ts e (t :: rest)) :
    ReadsWhole n es (w :: ws) e where
  starts ts rest hs := ⟨by rw [hs.headKind_first.1, hw], hs.headKind_first.2⟩
  reads ts rest hs m hm p hp hr := by
    have hlt := hs.headKind_first.2
    obtain ⟨m, rfl⟩ : ∃ k, m = k + 1 := ⟨m - 1, by omega⟩
    obtain ⟨t, ht⟩ := h hs m hm hr
    exact ⟨t, reads_expr_succ.2 ⟨e, _, ht, reads_climb_stop hr⟩⟩

/-- Data is read back from the text in which it is printed. -/
theorem Expr.IsData.readsWhole {e : Expr} (h : e.IsData) : ReadsWhole n es e.printedWords e := by
  induction h with
  | @int i h => exact (plainCases_readsBack.int i h).readsWhole (by simpa [Expr.plain] using h)
  | @negative i h =>
    have hi := Int64.le_of_lt h
    rw [printedWords_negative h]
    refine .of_operand rfl fun ts rest hs m hm hr => ?_
    obtain ⟨t, us, hk, -, rfl, hs'⟩ := spells_cons.1 hs
    have hint : ReadsWhole n es (Expr.int i).words (.int i) :=
      (plainCases_readsBack.int i hi).readsWhole (by simpa [Expr.plain] using hi)
    obtain ⟨u, hu⟩ := hint.reads hs' m (Nat.le_of_succ_le_succ hm) .unary (Nat.le_refl _) hr
    refine ⟨u, ?_⟩
    rw [reads_operand, headKind_cons, hk]
    exact reads_unary.2 ⟨_, rfl, hu⟩
  | bool b => exact (plainCases_readsBack.bool b).readsWhole rfl
  | @array xs h ih =>
    rw [printedWords_array h]
    refine .of_operand rfl fun ts rest hs m hm hr => ?_
    obtain ⟨t, us, hk, -, rfl, hs'⟩ := spells_cons.1 hs
    obtain ⟨u, hu, h₁⟩ := hs'.before
    refine ⟨u, ?_⟩
    rw [reads_operand, headKind_cons, hk]
    exact reads_array.2 ⟨xs, rfl, reads_items_of_spells (fun e he => (ih e he).item rfl rfl m) hu (by decide) h₁
      (Nat.le_of_succ_le_succ hm) t⟩
  | @hash ps hk hv ihk ihv =>
    rw [printedWords_hash hk hv]
    refine .of_operand rfl fun ts rest hs m hm hr => ?_
    obtain ⟨t, us, hk, -, rfl, hs'⟩ := spells_cons.1 hs
    obtain ⟨u, hu, h₁⟩ := hs'.before
    refine ⟨u, ?_⟩
    rw [reads_operand, headKind_cons, hk]
    obtain ⟨v, hv⟩ := reads_pairs_of_spells hu (fun q hq => ⟨ihk q hq, ihv q hq⟩) h₁ (Nat.le_of_succ_le_succ hm)
      (Nat.lt_succ_self _) t
    exact reads_hash.2 ⟨ps, _, rfl, hv, hu, rfl⟩

/-- The text in which data is printed is a source for it, without an error. -/
theorem parse_print {e : Expr} (h : e.IsData) : parse e.print = ⟨⟨[.expr e]⟩, []⟩ := by
  have hw : ReadsWhole (Token.Reader.ofString e.print).finish [] e.printedWords e := h.readsWhole
  have hs : Spells e.printedWords (Token.tokenize e.print).dropLast [] :=
    ⟨_, Token.map_word_tokenize e.print, (List.append_nil _).symm⟩
  obtain ⟨t, ht⟩ := hw.reads hs _ (Nat.le_refl _) .lowest (Precedence.lowest_le _) rfl
  exact parse_of_reads_expr (hw.starts hs).1 ht

end MonkeyLang
