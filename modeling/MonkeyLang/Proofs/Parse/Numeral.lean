/-
Numbers as programs. A run of decimal digits, of any length and with any leading zeros, is read as the number that its
digits denote by their places, up to the largest 64-bit integer; above that the text has one error, which quotes the
digits (`parse_digits`). The canonical text of an integer that is not negative is such a run, and is read as the
integer.
-/
import MonkeyLang.Proofs.Program.RoundTrip
import MonkeyLang.Proofs.Text.Bytes
import Mathlib.Data.List.Induction
import Mathlib.Data.Nat.Digits.Defs

namespace MonkeyLang

/-! ## The number of a run of digits -/

/-- The number that decimal digits denote, each by the place it stands at. -/
def Text.placeValue (cs : List Char) : Nat := Nat.ofDigits 10 (cs.reverse.map digitValue)

/-- Reading digits from left to right comes to what they denote. -/
theorem Text.numeral_eq_placeValue (cs : List Char) : numeral cs = placeValue cs := by
  -- by the last digit, which stands at the place of the ones
  induction cs using List.reverseRecOn with
  | nil => rfl
  | append_singleton cs c ih =>
    have hlast : numeral (cs ++ [c]) = 10 * numeral cs + digitValue c := by simp [numeral]
    rw [hlast, ih, placeValue, placeValue, List.reverse_append, List.reverse_singleton, List.singleton_append,
      List.map_cons, Nat.ofDigits_cons, Nat.add_comm]

/-! ## The token of a run of digits -/

theorem Token.tokenize_digits {d : String} (hne : d ≠ "") (hd : ∀ c ∈ d.toList, isDigit c = true) :
    tokenize d = [⟨.int, d, ⟨0, d.utf8ByteSize⟩⟩, endAt d.utf8ByteSize] := by
  obtain ⟨c, cs, hcs⟩ := List.exists_cons_of_ne_nil (mt String.toList_eq_nil_iff.1 hne)
  rw [hcs, List.forall_mem_cons] at hd
  obtain ⟨hc, hrun⟩ := hd
  have hread : Lexeme.read c cs = ⟨.int, d, d.toList, []⟩ := by
    rw [Lexeme.read_digit hc, List.takeWhile_eq_self_iff.2 hrun, List.dropWhile_eq_nil_iff.2 hrun, ← hcs,
      String.ofList_toList]
  have hnext : (Reader.ofString d).next? = some (⟨.int, d, ⟨0, d.utf8ByteSize⟩⟩, ⟨d.utf8ByteSize, []⟩) := by
    have hlayout := isLayout_of_isDigit hc
    refine Reader.next?_eq_some_iff.2 ⟨c, cs, ?_, ?_⟩
    · simp [Reader.ofString, hcs, hlayout]
    · rw [hread]
      simp [Reader.ofString, hcs, hlayout, Text.byteLength, ← Text.byteLength_toList]
  rw [tokenize, Reader.tokens_of_some hnext, Reader.tokens_of_none (Reader.next?_eq_none_iff.2 rfl)]
  rfl

/-! ## Reading a number -/

namespace Parser

variable {t : Token} {n : Nat}

/-- A turn of a loop over statements. -/
theorem run_statements_succ {expr : Precedence → Parser Expr} (stops : Token.Kind → Bool) (m : Nat) {c c' : Cursor}
    {o : Option Stmt} (hs : stops c.current.kind = false) (h : (statement expr).run c = (o, c')) :
    (statements expr stops (m + 1)).run c =
      (statements expr stops m >>= fun ss => pure (o.toList ++ ss)).run c'.advance := by
  have hattempt : (attempt (statement expr)).run c = (some o, c') := by
    show ((some ((statement expr).run c).1, ((statement expr).run c).2) : Option (Option Stmt) × Cursor) = _
    rw [h]
  show Parser.run (if stops c.current.kind then _ else _) c = _
  rw [if_neg (by rw [hs]; decide)]
  exact run_bind_some hattempt _

theorem run_integer_of_lt {c : Cursor} (h : Text.numeral c.current.literal.toList < Text.integerLimit) :
    integer.run c = (some (.int (Int64.ofNat (Text.numeral c.current.literal.toList))), c) := by
  show Parser.run (if _ then _ else _) c = _
  rw [if_pos h]
  rfl

theorem run_integer_of_not_lt {c : Cursor} (h : ¬ Text.numeral c.current.literal.toList < Text.integerLimit) :
    integer.run c = (none, c.report (.integerTooLarge c.current.literal) c.current) := by
  show Parser.run (if _ then _ else _) c = _
  rw [if_neg h]
  rfl

/-- What a sole token of kind number is read as decides about the whole text. -/
theorem run_wholeProgram_sole (hk : t.kind = .int) {o : Option Expr} {es : List ParseError}
    (h : integer.run ⟨[t], .endAt n, []⟩ = (o, ⟨[t], .endAt n, es⟩)) :
    wholeProgram.run ⟨[t], .endAt n, []⟩ = (some (o.map Stmt.expr).toList, ⟨[], .endAt n, es⟩) := by
  obtain ⟨k, literal, span⟩ := t
  obtain rfl : k = .int := hk
  have hoperand : (operand (expr 0)).run ⟨[⟨.int, literal, span⟩], .endAt n, []⟩ = _ := h
  have hexpr : (expr 1 .lowest).run ⟨[⟨.int, literal, span⟩], .endAt n, []⟩ =
      (o, ⟨[⟨.int, literal, span⟩], .endAt n, es⟩) := by
    cases o with
    | none => exact run_bind_none hoperand _
    | some e => exact run_bind_some hoperand _
  have hstatement : (statement (expr 1)).run ⟨[⟨.int, literal, span⟩], .endAt n, []⟩ =
      (o.map Stmt.expr, ⟨[⟨.int, literal, span⟩], .endAt n, es⟩) := by
    cases o with
    | none => exact run_bind_none hexpr _
    | some e => exact run_bind_some hexpr _
  refine (run_statements_succ (· == .endOfInput) 0 rfl hstatement).trans ?_
  show ((some ((o.map Stmt.expr).toList ++ []), _) : Option (List Stmt) × Cursor) = _
  rw [List.append_nil]
  rfl

end Parser

section

variable {d : String} (hne : d ≠ "") (hd : ∀ c ∈ d.toList, Token.isDigit c = true)

include hne hd

theorem Cursor.ofSource_digits : ofSource d = ⟨[⟨.int, d, ⟨0, d.utf8ByteSize⟩⟩], .endAt d.utf8ByteSize, []⟩ := by
  rw [ofSource, Token.tokenize_digits hne hd]
  rfl

theorem parse_digits_of_lt (h : Text.numeral d.toList < Text.integerLimit) :
    parse d = ⟨⟨[.expr (.int (Int64.ofNat (Text.numeral d.toList)))]⟩, []⟩ := by
  rw [parse, Cursor.ofSource_digits hne hd,
    Parser.run_wholeProgram_sole rfl (Parser.run_integer_of_lt (c := ⟨[⟨.int, d, _⟩], _, []⟩) h)]
  rfl

theorem parse_digits_of_not_lt (h : ¬ Text.numeral d.toList < Text.integerLimit) :
    parse d = ⟨⟨[]⟩, [⟨.integerTooLarge d, ⟨0, d.utf8ByteSize⟩⟩]⟩ := by
  rw [parse, Cursor.ofSource_digits hne hd,
    Parser.run_wholeProgram_sole rfl (Parser.run_integer_of_not_lt (c := ⟨[⟨.int, d, _⟩], _, []⟩) h)]
  rfl

end

/-- Decimal digits are read as the number that they denote, if it is at most the largest 64-bit integer, and else
there is nothing but one error, at all of the digits, that quotes them. The canonical text of an integer that is not
negative is read as that integer. -/
theorem parse_digits :
    (∀ d : String, d ≠ "" → (∀ c ∈ d.toList, '0' ≤ c ∧ c ≤ '9') →
      (Text.placeValue d.toList ≤ 2 ^ 63 - 1 → ∃ n : Int64, n.toInt = Text.placeValue d.toList ∧
        parse d = ⟨⟨[.expr (.int n)]⟩, []⟩) ∧
      (2 ^ 63 - 1 < Text.placeValue d.toList → ∃ e : ParseError, parse d = ⟨⟨[]⟩, [e]⟩ ∧
        e.message = "Could not parse " ++ d ++ " as integer" ∧ e.span = ⟨0, d.utf8ByteSize⟩)) ∧
    ∀ n : Int64, 0 ≤ n → parse (Expr.int n).text = ⟨⟨[.expr (.int n)]⟩, []⟩ := by
  refine ⟨fun d hne hd => ?_, fun n hn => ?_⟩
  · have hdigit : ∀ c ∈ d.toList, Token.isDigit c = true := fun c hc => by simpa [Token.isDigit] using hd c hc
    rw [← Text.numeral_eq_placeValue]
    refine ⟨fun hle => ?_, fun hgt => ?_⟩
    · have hlt : Text.numeral d.toList < Text.integerLimit := by
        unfold Text.integerLimit
        omega
      exact ⟨_, Int64.toInt_ofNat_of_lt hlt, parse_digits_of_lt hne hdigit hlt⟩
    · have hnlt : ¬ Text.numeral d.toList < Text.integerLimit := by
        unfold Text.integerLimit
        omega
      exact ⟨_, parse_digits_of_not_lt hne hdigit hnlt, rfl, rfl⟩
  · have htext : (Expr.int n).text.toList = Text.digits n.toInt.natAbs := toList_text_int hn
    have hnumeral : Text.numeral (Expr.int n).text.toList = n.toInt.natAbs := by rw [htext, Text.numeral_digits]
    have hne : (Expr.int n).text ≠ "" := by
      rw [ne_eq, ← String.toList_eq_nil_iff, htext]
      exact Text.digits_ne_nil _
    have hdigit : ∀ c ∈ (Expr.int n).text.toList, Token.isDigit c = true := by
      rw [htext]
      exact fun c hc => isDigit_of_mem_digits hc
    rw [parse_digits_of_lt hne hdigit (hnumeral ▸ natAbs_toInt_lt hn), hnumeral, ofNat_natAbs_toInt hn]

/-- On both sides of the limit: the largest integer behind zeros, and the number after it. -/
theorem parse_digits_limit :
    (∃ n : Int64, n.toInt = 9223372036854775807 ∧ parse "0009223372036854775807" = ⟨⟨[.expr (.int n)]⟩, []⟩) ∧
    (∃ e : ParseError, parse "9223372036854775808" = ⟨⟨[]⟩, [e]⟩ ∧
      e.message = "Could not parse 9223372036854775808 as integer" ∧ e.span = ⟨0, 19⟩) ∧
    parse (Expr.int 9223372036854775807).text = ⟨⟨[.expr (.int 9223372036854775807)]⟩, []⟩ := by
  obtain ⟨hdigits, htext⟩ := parse_digits
  have hbelow : Text.placeValue "0009223372036854775807".toList = 9223372036854775807 := by decide +kernel
  have habove : Text.placeValue "9223372036854775808".toList = 9223372036854775808 := by decide +kernel
  refine ⟨?_, ?_, htext _ (by decide)⟩
  · obtain ⟨n, hn, hparse⟩ := (hdigits "0009223372036854775807" (by decide) (by simp)).1 (by rw [hbelow]; decide)
    exact ⟨n, by rw [hn, hbelow]; rfl, hparse⟩
  · exact (hdigits "9223372036854775808" (by decide) (by simp)).2 (by rw [habove]; decide)

end MonkeyLang
