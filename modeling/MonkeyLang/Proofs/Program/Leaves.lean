/-
The leaves of a program: its names, numbers and strings from left to right, those of blocks and parameter lists
included, and the returns that lack a value. `Leaf.From` says where a leaf comes from: a name, a number or a
string stands for a token of its kind, and a return lacks its value only behind an error. What such a token may
be is known from its spelling, whatever the text around it is.
-/
import MonkeyLang.Parse.Cursor
import MonkeyLang.Program.Basic
import MonkeyLang.Proofs.Token.Partition

namespace MonkeyLang

inductive Leaf where
  /-- What a binding names, a parameter, or a reference. -/
  | name (s : String)
  | int (n : Int64)
  | string (s : String)
  /-- A return without a value. -/
  | bareReturn
deriving DecidableEq, Repr

mutual

def Expr.leaves : Expr → List Leaf
  | .ident name => [.name name]
  | .int n => [.int n]
  | .bool _ => []
  | .string s => [.string s]
  | .array es => Expr.allLeaves es
  | .hash ps => Expr.pairLeaves ps
  | .function params body => params.map .name ++ Stmt.allLeaves body
  | .unary _ e => e.leaves
  | .binary _ l r => l.leaves ++ r.leaves
  | .cond c yes none => c.leaves ++ Stmt.allLeaves yes
  | .cond c yes (some no) => c.leaves ++ Stmt.allLeaves yes ++ Stmt.allLeaves no
  | .call f args => f.leaves ++ Expr.allLeaves args
  | .index e i => e.leaves ++ i.leaves

def Expr.allLeaves : List Expr → List Leaf
  | [] => []
  | e :: es => e.leaves ++ Expr.allLeaves es

def Expr.pairLeaves : List (Expr × Expr) → List Leaf
  | [] => []
  | (k, v) :: ps => k.leaves ++ v.leaves ++ Expr.pairLeaves ps

def Stmt.leaves : Stmt → List Leaf
  | .bind name e => .name name :: e.leaves
  | .ret none => [.bareReturn]
  | .ret (some e) => e.leaves
  | .expr e => e.leaves

def Stmt.allLeaves : List Stmt → List Leaf
  | [] => []
  | s :: ss => s.leaves ++ Stmt.allLeaves ss

end

def Program.leaves (p : Program) : List Leaf := Stmt.allLeaves p.statements

theorem Expr.allLeaves_eq (es : List Expr) : Expr.allLeaves es = es.flatMap Expr.leaves := by
  induction es with
  | nil => rfl
  | cons e es ih => rw [Expr.allLeaves, ih, List.flatMap_cons]

theorem Expr.pairLeaves_eq (ps : List (Expr × Expr)) :
    Expr.pairLeaves ps = ps.flatMap fun q => q.1.leaves ++ q.2.leaves := by
  induction ps with
  | nil => rfl
  | cons q ps ih => rw [Expr.pairLeaves, ih, List.flatMap_cons]

theorem Stmt.allLeaves_eq (ss : List Stmt) : Stmt.allLeaves ss = ss.flatMap Stmt.leaves := by
  induction ss with
  | nil => rfl
  | cons s ss ih => rw [Stmt.allLeaves, ih, List.flatMap_cons]

/-- Where a leaf of a program comes from that was read off the tokens `ts` with the errors `es`. -/
def Leaf.From (ts : List Token) (es : List ParseError) : Leaf → Prop
  | .name s => ∃ t ∈ ts, t.kind = .ident ∧ t.literal = s
  | .int n => ∃ t ∈ ts, t.kind = .int ∧ n.toInt = Text.numeral t.literal.toList
  | .string s => ∃ t ∈ ts, t.kind = .string ∧ t.literal = s
  | .bareReturn => es ≠ []

/-- More errors do no harm. -/
theorem Leaf.From.append {ts : List Token} {es : List ParseError} {l : Leaf} (h : l.From ts es)
    (es' : List ParseError) : l.From ts (es ++ es') := by
  cases l with
  | bareReturn => exact List.append_ne_nil_of_left_ne_nil h es'
  | _ => exact h

namespace Token

/-! ## Tokens that leaves stand for -/

/-- The leaf that a token stands for. -/
def leaves (t : Token) : List Leaf :=
  match t.kind with
  | .ident => [.name t.literal]
  | .string => [.string t.literal]
  | .int =>
    if Text.numeral t.literal.toList < Text.integerLimit then [.int (Int64.ofNat (Text.numeral t.literal.toList))]
    else []
  | _ => []

/-- What a token stands for is what it says. -/
theorem from_of_mem_leaves {t : Token} {ts : List Token} (ht : t ∈ ts) {l : Leaf} (hl : l ∈ t.leaves)
    (es : List ParseError) : l.From ts es := by
  unfold leaves at hl
  split at hl
  · next hk =>
    rw [List.mem_singleton.1 hl]
    exact ⟨t, ht, hk, rfl⟩
  · next hk =>
    rw [List.mem_singleton.1 hl]
    exact ⟨t, ht, hk, rfl⟩
  · next hk =>
    split at hl
    · next hn =>
      rw [List.mem_singleton.1 hl]
      exact ⟨t, ht, hk, Int64.toInt_ofNat_of_lt hn⟩
    · cases hl
  · cases hl

theorem Spelled.name {s : String} {lexeme post : List Char} (h : Spelled .ident s lexeme post) :
    s.toList ≠ [] ∧ (∀ c ∈ s.toList, isLetter c = true) ∧ ∀ w ∈ reservedWords, s ≠ w.2 := by
  cases h with
  | reserved h => simp [reservedWords] at h
  | ident nonempty letters h =>
    rw [String.toList_ofList]
    refine ⟨nonempty, letters, fun w hw he => h w hw ?_⟩
    rw [← he, String.toList_ofList]
  | sign h => simp [signs] at h

theorem Spelled.quote_not_mem {s : String} {lexeme post : List Char} (h : Spelled .string s lexeme post) :
    '"' ∉ s.toList := by
  cases h with
  | reserved h => simp [reservedWords] at h
  | string h => rwa [String.toList_ofList]
  | sign h => simp [signs] at h

/-- Every token of a text is spelled there, but for the one at its end. -/
theorem exists_spelled_of_mem_tokenize {source : String} {t : Token} (ht : t ∈ tokenize source)
    (hk : t.kind ≠ .endOfInput) : ∃ lexeme post, Spelled t.kind t.literal lexeme post := by
  rw [tokenize, Reader.tokens_eq_body_append] at ht
  rcases List.mem_append.1 ht with ht | ht
  · obtain ⟨-, lexeme, post, -, -, -, h⟩ := (lexed_body source).spelled t ht
    exact ⟨lexeme, post, h⟩
  · exact absurd (congrArg kind (List.mem_singleton.1 ht)) hk

end Token

end MonkeyLang
