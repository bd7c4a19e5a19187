/-
Where the parts of a parsed program come from, with or without errors: every name, number and string of the
program stands for a token of the text, and a return lacks its value only if there is an error
(`parse_leaves_wellFormed`). A cursor carries the leaves that were read so far, and the current token may add its own.
What a rule gives up on is lost, but the error it records stays, so a return may then go without its value.
-/
import MonkeyLang.Proofs.Parse.Acceptance
import MonkeyLang.Proofs.Parse.Discipline
import Mathlib.Algebra.Group.Int.Defs

namespace MonkeyLang

/-- A cursor in a text with the tokens `ts`, after the leaves `ls` have been read. -/
structure Cursor.Carries (ts : List Token) (ls : List Leaf) (c : Cursor) : Prop where
  ahead : c.tokens ++ [c.last] ⊆ ts
  leaves : ∀ l ∈ ls, l.From ts c.errors

namespace Cursor.Carries

variable {ts : List Token} {ls ls' : List Leaf} {c : Cursor}

theorem mono (h : c.Carries ts ls) (hs : ls' ⊆ ls) : c.Carries ts ls' :=
  ⟨h.ahead, fun l hl => h.leaves l (hs hl)⟩

/-- The leaf of the current token may be read. -/
theorem current (h : c.Carries ts ls) : c.Carries ts (c.current.leaves ++ ls) := by
  refine ⟨h.ahead, fun l hl => ?_⟩
  rcases List.mem_append.1 hl with hl | hl
  · exact Token.from_of_mem_leaves (h.ahead c.current_mem) hl _
  · exact h.leaves l hl

theorem advance (h : c.Carries ts ls) : c.advance.Carries ts ls :=
  ⟨List.Subset.trans c.advance_suffix.subset h.ahead, h.leaves⟩

/-- Behind an error a return may lack its value. -/
theorem report (h : c.Carries ts ls) (cause : ParseError.Cause) (t : Token) :
    (c.report cause t).Carries ts (.bareReturn :: ls) := by
  refine ⟨h.ahead, List.forall_mem_cons.2 ⟨?_, fun l hl => (h.leaves l hl).append _⟩⟩
  exact List.append_ne_nil_of_right_ne_nil _ (List.cons_ne_nil _ _)

end Cursor.Carries

namespace Parser

/-- What may be added to the leaves that were read: where a rule has given up, a return without its value. -/
def Stage.spare : Stage → List Leaf
  | stuck => [.bareReturn]
  | _ => []

def Discipline.carrying (ts : List Token) : Discipline where
  holds x ls := Cursor.Carries ts (x.spare ++ ls)
  within h hc := by
    cases h with
    | stuck_settled => exact hc.mono (List.subset_cons_self _ _)
    | inside_start | inside_settled | turn_start | turn_inside => exact hc
  forget h hc := hc.mono
    (List.append_subset.2 ⟨List.subset_append_left _ _, List.subset_append_of_subset_right _ h.subset⟩)
  begun hc _ := hc
  leaf hc := hc.current
  advance hc := hc.advance
  enter hc _ := hc.advance
  skip hc _ := hc.advance
  again _ hc := hc.advance
  expected _ hc := hc.report _ _
  noOperand hc := hc.report _ _
  tooLarge hc _ _ := hc.report _ _
  lapse hc := hc.mono (List.cons_subset.2 ⟨List.mem_cons_self, List.Subset.refl _⟩)

end Parser

/-! ## Whole texts -/

theorem parse_leaves_from (source : String) :
    ∀ l ∈ (parse source).program.leaves, l.From (Token.tokenize source) (parse source).errors := by
  have hstart : (Cursor.ofSource source).Carries (Token.tokenize source) [] :=
    ⟨fun t ht => Cursor.ahead_ofSource source ▸ ht, by simp⟩
  obtain ⟨c, hrun, herrors, -⟩ := Parser.exists_run_wholeProgram source
  have hend := Parser.Recipe.wholeProgram.triple (.carrying (Token.tokenize source)) [] _ ⟨hstart, trivial⟩
  rw [hrun] at hend
  intro l hl
  rw [Program.leaves, Stmt.allLeaves_eq] at hl
  rw [← herrors]
  exact hend.leaves l (List.mem_append_left [] hl)

/-- Every program that was read is well formed, whatever the text and its errors. Names are runs of letters that
are not reserved, numbers are those from 0 to the largest 64-bit integer, and no string has a quote in it; each
of them is what a token of the text says; and in a text without errors every return has its value. -/
theorem parse_leaves_wellFormed (source : String) :
    (∀ s, Leaf.name s ∈ (parse source).program.leaves →
      s.toList ≠ [] ∧ (∀ c ∈ s.toList, Token.isLetter c = true) ∧ (∀ w ∈ Token.reservedWords, s ≠ w.2) ∧
        ∃ t ∈ Token.tokenize source, t.kind = .ident ∧ t.literal = s) ∧
      (∀ n, Leaf.int n ∈ (parse source).program.leaves → 0 ≤ n.toInt ∧ n.toInt ≤ 2 ^ 63 - 1 ∧
        ∃ t ∈ Token.tokenize source, t.kind = .int ∧ n.toInt = Text.numeral t.literal.toList) ∧
      (∀ s, Leaf.string s ∈ (parse source).program.leaves → '"' ∉ s.toList ∧
        ∃ t ∈ Token.tokenize source, t.kind = .string ∧ t.literal = s) ∧
      ((parse source).errors = [] → Leaf.bareReturn ∉ (parse source).program.leaves) := by
  have hfrom := parse_leaves_from source
  refine ⟨fun s hs => ?_, fun n hn => ?_, fun s hs => ?_, fun hnone hret => ?_⟩
  · obtain ⟨t, ht, hk, rfl⟩ := hfrom _ hs
    obtain ⟨lexeme, post, hsp⟩ := Token.exists_spelled_of_mem_tokenize ht (by simp [hk])
    obtain ⟨hne, hletters, hword⟩ := (hk ▸ hsp).name
    exact ⟨hne, hletters, hword, t, ht, hk, rfl⟩
  · obtain ⟨t, ht, hk, hn⟩ := hfrom _ hn
    have hlt := n.toInt_lt
    exact ⟨by omega, by omega, t, ht, hk, hn⟩
  · obtain ⟨t, ht, hk, rfl⟩ := hfrom _ hs
    obtain ⟨lexeme, post, hsp⟩ := Token.exists_spelled_of_mem_tokenize ht (by simp [hk])
    exact ⟨(hk ▸ hsp).quote_not_mem, t, ht, hk, rfl⟩
  · exact hfrom _ hret hnone

-- a return deep inside goes without its value, and the name `y` is dropped with its statement
example : (parse "let f = fn(x) \x7b if (x) \x7b return ; \x7d \x7d; let y 5; f(\"a\")").program.leaves =
    [.name "f", .name "x", .name "x", .bareReturn, .int 5, .name "f", .string "a"] := by
  decide +kernel

end MonkeyLang
