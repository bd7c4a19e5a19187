/-
JSON trees with their fields in order, and their text on several lines: two spaces for each level,
one item or field a line.
-/
import MonkeyLang.Token.Basic

namespace MonkeyLang

inductive Json where
  | null
  | bool (value : Bool)
  | int (value : Int)
  | string (value : String)
  | array (items : List Json)
  | object (fields : List (String × Json))

namespace Json

/-- A control character as four hexadecimal digits. -/
def controlEscape (c : Char) : List Char :=
  let hex := Nat.toDigits 16 c.toNat
  ['\\', 'u'] ++ List.replicate (4 - hex.length) '0' ++ hex

/-- How one character is written in a JSON string. -/
def stringChar (c : Char) : List Char :=
  match c with
  | '"' => ['\\', '"']
  | '\\' => ['\\', '\\']
  | '\x08' => ['\\', 'b']
  | '\x0c' => ['\\', 'f']
  | '\n' => ['\\', 'n']
  | '\r' => ['\\', 'r']
  | '\t' => ['\\', 't']
  | c => if c.toNat < 0x20 then controlEscape c else [c]

def stringText (s : String) : String :=
  String.ofList ('"' :: s.toList.flatMap stringChar ++ ['"'])

/-- A new line at a level of nesting. -/
def newline (level : Nat) : String := String.ofList ('\n' :: List.replicate (2 * level) ' ')

/-- Written items between a pair of brackets, each on a line of its own one level further in. -/
def bracketed (opening closing : String) (level : Nat) (items : List String) : String :=
  if items.isEmpty then opening ++ closing
  else
    opening ++ newline (level + 1) ++ ("," ++ newline (level + 1)).intercalate items ++
      newline level ++ closing

mutual

/-- The text of a tree whose first character stands at a level of nesting. -/
def textAt : Json → Nat → String
  | .null, _ => "null"
  | .bool b, _ => if b then "true" else "false"
  | .int n, _ => Text.signedDecimal n
  | .string s, _ => stringText s
  | .array items, level => bracketed "[" "]" level (itemTexts items (level + 1))
  | .object fields, level => bracketed "\x7b" "\x7d" level (fieldTexts fields (level + 1))

def itemTexts : List Json → Nat → List String
  | [], _ => []
  | j :: js, level => j.textAt level :: itemTexts js level

def fieldTexts : List (String × Json) → Nat → List String
  | [], _ => []
  | (name, j) :: fs, level => (stringText name ++ ": " ++ j.textAt level) :: fieldTexts fs level

end

def text (j : Json) : String := j.textAt 0

end Json

def Span.toJson (s : Span) : Json := .object [("start", .int s.start), ("end", .int s.stop)]

end MonkeyLang
