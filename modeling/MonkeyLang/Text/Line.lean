/-
Lines of input as they come in as bytes: each must be UTF-8, a backspace takes back the cluster before it,
and white space around a line does not count. White space is that of the Unicode property `White_Space`;
the layout between two tokens is a smaller class.
-/
import MonkeyLang.Text.Basic
import MonkeyLang.Text.Cluster.Basic

namespace MonkeyLang.Text

/-! ## Lines -/

/-- The pieces of an input that line feeds end, after a piece begun whose bytes come last first.
Nothing follows the last line feed if no byte does. -/
def splitLinesFrom (begun : List UInt8) : List UInt8 → List (List UInt8)
  | [] => if begun.isEmpty then [] else [begun.reverse]
  | b :: bs =>
    if b = 0x0a then begun.reverse :: splitLinesFrom [] bs else splitLinesFrom (b :: begun) bs

def splitLines (bytes : List UInt8) : List (List UInt8) := splitLinesFrom [] bytes

/-- The text that bytes stand for, unless they are no UTF-8. -/
def decode? (bytes : List UInt8) : Option String := String.fromUTF8? ⟨bytes.toArray⟩

/-! ## Backspaces -/

def backspace : Char := '\x08'

/-- What has been typed of a line. -/
structure Typed where
  /-- The characters, the last one first. -/
  text : List Char
  /-- The sizes in bytes, modulo 256, of the clusters that can be taken back, the last one first. -/
  sizes : List UInt8

namespace Typed

def empty : Typed := ⟨[], []⟩

/-- Takes in one cluster. A backspace removes as many bytes as are noted for the last cluster, and
nothing where no cluster is left. -/
def type (t : Typed) (cluster : List Char) : Typed :=
  if cluster = [backspace] then
    match t.sizes with
    | [] => t
    | n :: sizes => ⟨dropBytes n.toNat t.text, sizes⟩
  else ⟨cluster.reverse ++ t.text, (byteLength cluster).toUInt8 :: t.sizes⟩

def line (t : Typed) : String := String.ofList t.text.reverse

end Typed

/-- The line after each backspace has taken back the cluster before it. -/
def applyBackspaces (line : String) : String :=
  ((clusters line.toList).foldl Typed.type Typed.empty).line

/-- The lines of an input, `none` for one that is no UTF-8. -/
def inputLines (bytes : List UInt8) : List (Option String) :=
  (splitLines bytes).map fun l => (decode? l).map applyBackspaces

/-! ## White space -/

/-- The characters with the property `White_Space`. -/
def isBlank (c : Char) : Bool :=
  let n := c.toNat
  (0x9 ≤ n && n ≤ 0xd) || n == 0x20 || n == 0x85 || n == 0xa0 || n == 0x1680 ||
    (0x2000 ≤ n && n ≤ 0x200a) || n == 0x2028 || n == 0x2029 || n == 0x202f || n == 0x205f ||
    n == 0x3000

/-- The text without its leading and trailing white space. -/
def trim (s : String) : String :=
  String.ofList ((s.toList.dropWhile isBlank).reverse.dropWhile isBlank).reverse

/-! ## Lines without a backspace -/

theorem Typed.text_foldl_type (t : Typed) (ks : List (List Char))
    (h : ∀ k ∈ ks, k ≠ [backspace]) : (ks.foldl Typed.type t).text = ks.flatten.reverse ++ t.text := by
  induction ks generalizing t with
  | nil => simp
  | cons k ks ih =>
    rw [List.foldl_cons, ih _ fun j hj => h j (List.mem_cons_of_mem k hj), Typed.type,
      if_neg (h k List.mem_cons_self)]
    simp

/-- A line without a backspace is left as it is. -/
theorem applyBackspaces_of_not_mem {line : String} (h : backspace ∉ line.toList) :
    applyBackspaces line = line := by
  have hk : ∀ k ∈ clusters line.toList, k ≠ [backspace] := by
    rintro k hk rfl
    exact h (flatten_clusters line.toList ▸ List.mem_flatten.mpr ⟨_, hk, List.mem_singleton.mpr rfl⟩)
  simp [applyBackspaces, Typed.line, Typed.text_foldl_type _ _ hk, flatten_clusters, Typed.empty]

end MonkeyLang.Text
