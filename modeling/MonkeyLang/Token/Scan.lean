/-
Reading tokens off a text. `Reader.next?` skips the layout and reads one token; `tokenize` reads them
all and closes the list with the token for the end of the text. Each token takes at least one
character, which is why reading comes to an end.
-/
import MonkeyLang.Text.Basic
import MonkeyLang.Token.Basic

namespace MonkeyLang.Token

open Text (byteLength)

/-! ## Character classes -/

/-- The layout that may stand between tokens. -/
def isLayout (c : Char) : Bool := c == ' ' || c == '\t' || c == '\n' || c == '\r' || c == '\x0c'

/-- The characters of identifiers and reserved words, digits excluded. -/
def isLetter (c : Char) : Bool :=
  ('a' ≤ c && c ≤ 'z') || ('A' ≤ c && c ≤ 'Z') || c == '_'

def isDigit (c : Char) : Bool := '0' ≤ c && c ≤ '9'

/-! ## One token -/

/-- A token as spelled: its kind, its literal, the characters it takes up, and those after it. -/
structure Lexeme where
  kind : Kind
  literal : String
  spelling : List Char
  rest : List Char

/-- The longest token that starts with the character `c`, given the characters after it. A quote
that is never closed spoils everything up to the end of the text. -/
def Lexeme.read (c : Char) (cs : List Char) : Lexeme :=
  if isLetter c then
    let word := c :: cs.takeWhile isLetter
    ⟨Kind.ofWord (String.ofList word), String.ofList word, word, cs.dropWhile isLetter⟩
  else if isDigit c then
    let run := c :: cs.takeWhile isDigit
    ⟨.int, String.ofList run, run, cs.dropWhile isDigit⟩
  else if c = '"' then
    let body := cs.takeWhile (· != '"')
    match cs.dropWhile (· != '"') with
    | [] => ⟨.illegal, "\"", c :: cs, []⟩
    | close :: rest => ⟨.string, String.ofList body, c :: body ++ [close], rest⟩
  else
    match c, cs with
    | '=', '=' :: rest => ⟨.equal, "==", ['=', '='], rest⟩
    | '!', '=' :: rest => ⟨.notEqual, "!=", ['!', '='], rest⟩
    | _, _ => ⟨Kind.ofSign c, String.ofList [c], [c], cs⟩

/-- Nothing is lost: a lexeme and what follows it make up the text it was read from. -/
theorem Lexeme.spelling_append_rest (c : Char) (cs : List Char) :
    (Lexeme.read c cs).spelling ++ (Lexeme.read c cs).rest = c :: cs := by
  unfold Lexeme.read
  split
  · simp
  · split
    · simp
    · split
      · split
        · simp
        · rename_i close rest h
          have := List.takeWhile_append_dropWhile (p := (· != '"')) (l := cs)
          simp [h] at this ⊢
          exact this
      · split <;> simp

theorem Lexeme.spelling_ne_nil (c : Char) (cs : List Char) : (Lexeme.read c cs).spelling ≠ [] := by
  unfold Lexeme.read
  split
  · simp
  · split
    · simp
    · split
      · split <;> simp
      · split <;> simp

theorem Lexeme.length_rest_le (c : Char) (cs : List Char) :
    (Lexeme.read c cs).rest.length ≤ cs.length := by
  have h := congrArg List.length (Lexeme.spelling_append_rest c cs)
  have h' := List.length_pos_iff.mpr (Lexeme.spelling_ne_nil c cs)
  simp at h
  omega

/-! ## All tokens -/

/-- The unread part of a text, and the byte offset it starts at. -/
structure Reader where
  offset : Nat
  rest : List Char

namespace Reader

def ofString (source : String) : Reader := ⟨0, source.toList⟩

/-- The byte offset at which the text ends. -/
def finish (r : Reader) : Nat := r.offset + byteLength r.rest

/-- The next token and the reader behind it; `none` when only layout is left. -/
def next? (r : Reader) : Option (Token × Reader) :=
  match r.rest.dropWhile isLayout with
  | [] => none
  | c :: cs =>
    let start := r.offset + byteLength (r.rest.takeWhile isLayout)
    let lexeme := Lexeme.read c cs
    let stop := start + byteLength lexeme.spelling
    some (⟨lexeme.kind, lexeme.literal, ⟨start, stop⟩⟩, ⟨stop, lexeme.rest⟩)

theorem length_rest_lt_of_next? {r r' : Reader} {t : Token} (h : r.next? = some (t, r')) :
    r'.rest.length < r.rest.length := by
  unfold next? at h
  split at h
  · cases h
  · rename_i c cs hd
    cases h
    have h1 := Lexeme.length_rest_le c cs
    have h2 := (List.dropWhile_sublist (l := r.rest) isLayout).length_le
    rw [hd, List.length_cons] at h2
    simp only
    omega

/-- The tokens of the unread text, the one for its end included. -/
def tokens (r : Reader) : List Token :=
  match _h : r.next? with
  | none => [endAt r.finish]
  | some (t, r') => t :: r'.tokens
termination_by r.rest.length
decreasing_by exact length_rest_lt_of_next? _h

end Reader

/-- All tokens of a text, closed by the token for its end. -/
def tokenize (source : String) : List Token := (Reader.ofString source).tokens

end MonkeyLang.Token
