/-
What texts are measured by: decimal notation and the number that digits denote, the size of a text in UTF-8,
and the 64-bit FNV-1a digest of its bytes. Strings are looked up in a hash by their digest alone.
-/

namespace MonkeyLang.Text

/-! ## Decimal notation -/

/-- The decimal digits of `n`, with no leading zero. -/
def digits (n : Nat) : List Char := Nat.toDigits 10 n

def decimal (n : Nat) : String := String.ofList (digits n)

/-- The decimal text of an integer, a minus sign in front of a negative one. -/
def signedDecimal (n : Int) : String :=
  if n < 0 then String.ofList ('-' :: digits n.natAbs) else decimal n.natAbs

def digitValue (c : Char) : Nat := c.toNat - '0'.toNat

/-- The number that a run of decimal digits denotes; leading zeros do not count. -/
def numeral (cs : List Char) : Nat := cs.foldl (fun n c => 10 * n + digitValue c) 0

/-- The number of integers of 64 bits that are not negative. -/
def integerLimit : Nat := 9223372036854775808

/-! ## Sizes in bytes -/

/-- The number of bytes of a run of characters in UTF-8. -/
def byteLength : List Char → Nat
  | [] => 0
  | c :: cs => c.utf8Size + byteLength cs

theorem byteLength_append (cs ds : List Char) :
    byteLength (cs ++ ds) = byteLength cs + byteLength ds := by
  induction cs with
  | nil => simp [byteLength]
  | cons c cs ih => simp only [List.cons_append, byteLength, ih]; omega

/-- Takes the first `n` bytes off a run of characters. A character that would be cut stays. -/
def dropBytes : Nat → List Char → List Char
  | _, [] => []
  | n, c :: cs => if c.utf8Size ≤ n then dropBytes (n - c.utf8Size) cs else c :: cs

theorem dropBytes_append (n : Nat) (cs ds : List Char) :
    dropBytes (byteLength cs + n) (cs ++ ds) = dropBytes n ds := by
  induction cs with
  | nil => simp [byteLength]
  | cons c cs ih =>
    have h : c.utf8Size ≤ byteLength (c :: cs) + n := by simp only [byteLength]; omega
    have e : byteLength (c :: cs) + n - c.utf8Size = byteLength cs + n := by
      simp only [byteLength]; omega
    simp only [List.cons_append, dropBytes, if_pos h, e, ih]

theorem dropBytes_zero (cs : List Char) : dropBytes 0 cs = cs := by
  cases cs with
  | nil => rfl
  | cons c cs =>
    have := c.utf8Size_pos
    rw [dropBytes, if_neg (by omega)]

/-- A part of known size goes as a whole. -/
theorem dropBytes_byteLength (cs ds : List Char) : dropBytes (byteLength cs) (cs ++ ds) = ds := by
  have h := dropBytes_append 0 cs ds
  rwa [Nat.add_zero, dropBytes_zero] at h

/-! ## Digests -/

def digestBasis : UInt64 := 14695981039346656037

def digestFactor : UInt64 := 1099511628211

/-- One byte is mixed into the digest: exclusive or, then a multiplication modulo `2 ^ 64`. -/
def mixByte (h : UInt64) (b : UInt8) : UInt64 := (h ^^^ b.toUInt64) * digestFactor

def digest (bytes : List UInt8) : UInt64 := bytes.foldl mixByte digestBasis

/-- The UTF-8 form of a text. -/
def bytesOf (s : String) : List UInt8 := s.toUTF8.data.toList

@[simp] theorem digest_nil : digest [] = digestBasis := rfl

theorem digest_append (p s : List UInt8) : digest (p ++ s) = s.foldl mixByte (digest p) := by
  simp [digest]

end MonkeyLang.Text
