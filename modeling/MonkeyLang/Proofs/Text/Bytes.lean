/-
The bytes of a text and its characters: each byte belongs to one character, a first byte below 128 is
the whole character, of two parts that a text begins with the one with fewer bytes comes first, and texts
are ordered as their bytes are.
-/
import MonkeyLang.Text.Basic
import Mathlib.Tactic.Common

namespace MonkeyLang.Text

@[simp] theorem byteLength_nil : byteLength [] = 0 := rfl

theorem byteLength_eq_zero {cs : List Char} : byteLength cs = 0 ↔ cs = [] := by
  cases cs with
  | nil => simp
  | cons c cs =>
    have := c.utf8Size_pos
    simp only [byteLength, List.cons_ne_nil, iff_false]
    omega

/-- Of two parts that a text begins with, the one with no more bytes is a part of the other. -/
theorem exists_append_of_byteLength_le {as bs cs ds : List Char} (h : as ++ bs = cs ++ ds)
    (hle : byteLength as ≤ byteLength cs) : ∃ es, cs = as ++ es ∧ bs = es ++ ds := by
  rcases List.append_eq_append_iff.1 h with ⟨es, hc, hb⟩ | ⟨es, ha, hd⟩
  · exact ⟨es, hc, hb⟩
  · rw [ha, byteLength_append] at hle
    obtain rfl := byteLength_eq_zero.1 (by omega : byteLength es = 0)
    exact ⟨[], by simpa using ha.symm, by simpa using hd.symm⟩

theorem length_flatMap_utf8EncodeChar (cs : List Char) :
    (cs.flatMap String.utf8EncodeChar).length = byteLength cs := by
  induction cs with
  | nil => rfl
  | cons c cs ih => simp [byteLength, ih]

theorem bytesOf_eq (s : String) : bytesOf s = s.toList.flatMap String.utf8EncodeChar := by
  have h : s.toByteArray = (s.toList.flatMap String.utf8EncodeChar).toByteArray :=
    String.utf8Encode_toList.symm
  rw [bytesOf, String.toUTF8, h, List.toList_data_toByteArray]

theorem byteLength_toList (s : String) : byteLength s.toList = s.utf8ByteSize := by
  rw [← length_flatMap_utf8EncodeChar, ← bytesOf_eq]
  simp [bytesOf]

/-- Each byte belongs to one character. -/
theorem exists_of_getElem?_flatMap {cs : List Char} {i : Nat} {b : UInt8}
    (h : (cs.flatMap String.utf8EncodeChar)[i]? = some b) : ∃ gap c post j, cs = gap ++ c :: post ∧
      i = byteLength gap + j ∧ j < c.utf8Size ∧ (String.utf8EncodeChar c)[j]? = some b := by
  induction cs generalizing i with
  | nil => simp at h
  | cons c cs ih =>
    rw [List.flatMap_cons] at h
    by_cases hi : i < c.utf8Size
    · rw [List.getElem?_append_left (by simpa using hi)] at h
      exact ⟨[], c, cs, i, rfl, by simp, hi, h⟩
    · rw [List.getElem?_append_right (by simpa using hi), String.length_utf8EncodeChar] at h
      obtain ⟨gap, d, post, j, rfl, hj, hlt, hb⟩ := ih h
      exact ⟨c :: gap, d, post, j, rfl, by simp only [byteLength]; omega, hlt, hb⟩

/-- A first byte below 128 is all of its character. -/
theorem toNat_eq_of_utf8EncodeChar {c : Char} {b : UInt8} (h : (String.utf8EncodeChar c)[0]? = some b)
    (hb : b.toNat < 128) : c.toNat = b.toNat := by
  revert h
  -- every longer form begins with a byte of 192 at least
  fun_cases String.utf8EncodeChar c with
  | case1 v hv =>
    rintro ⟨⟩
    have hc : c.toNat = v := rfl
    rw [UInt8.toNat_ofNat'] at hb ⊢
    omega
  | case2 v hv hv' =>
    rintro ⟨⟩
    rw [UInt8.toNat_ofNat'] at hb
    omega
  | case3 v hv hv' hv'' =>
    rintro ⟨⟩
    rw [UInt8.toNat_ofNat'] at hb
    omega
  | case4 v hv hv' hv'' =>
    rintro ⟨⟩
    rw [UInt8.toNat_ofNat'] at hb
    omega

/-! ## Order -/

theorem ofNat_cons_lt {a b : Nat} {xs ys : List UInt8} (hb : b < 256) (hab : a ≤ b) (hrest : a = b → xs < ys) :
    UInt8.ofNat a :: xs < UInt8.ofNat b :: ys := by
  rw [List.cons_lt_cons_iff]
  rcases Nat.lt_or_eq_of_le hab with hlt | rfl
  · left
    rw [UInt8.lt_iff_toNat_lt, UInt8.toNat_ofNat', UInt8.toNat_ofNat']
    omega
  · exact .inr ⟨rfl, hrest rfl⟩

/-- The smaller of two characters has the smaller form, whatever comes after. -/
theorem utf8EncodeChar_append_lt {c d : Char} (h : c < d) (xs ys : List UInt8) :
    String.utf8EncodeChar c ++ xs < String.utf8EncodeChar d ++ ys := by
  have hcd : c.val.toNat < d.val.toNat := h
  have hd : d.val.toNat < 1114112 := by
    rcases d.valid with hv | hv <;> omega
  fun_cases String.utf8EncodeChar c <;> fun_cases String.utf8EncodeChar d
  case case2.case2 =>
    exact ofNat_cons_lt (by omega) (by omega) fun _ => ofNat_cons_lt (by omega) (by omega) fun _ => by omega
  case case3.case3 =>
    refine ofNat_cons_lt (by omega) (by omega) fun _ => ofNat_cons_lt (by omega) (by omega) fun _ => ?_
    exact ofNat_cons_lt (by omega) (by omega) fun _ => by omega
  case case4.case4 =>
    refine ofNat_cons_lt (by omega) (by omega) fun _ => ofNat_cons_lt (by omega) (by omega) fun _ => ?_
    exact ofNat_cons_lt (by omega) (by omega) fun _ => ofNat_cons_lt (by omega) (by omega) fun _ => by omega
  -- forms of different lengths differ in their first bytes already
  all_goals exact ofNat_cons_lt (by omega) (by omega) fun _ => by omega

theorem flatMap_utf8EncodeChar_lt {cs ds : List Char} (h : cs < ds) :
    cs.flatMap String.utf8EncodeChar < ds.flatMap String.utf8EncodeChar := by
  induction cs generalizing ds with
  | nil =>
    cases ds with
    | nil => exact absurd h (List.not_lt_nil _)
    | cons d ds =>
      obtain ⟨b, bs, hd⟩ := List.exists_cons_of_length_pos (l := String.utf8EncodeChar d) (by simp [d.utf8Size_pos])
      rw [List.flatMap_cons, hd]
      exact List.nil_lt_cons _ _
  | cons c cs ih =>
    cases ds with
    | nil => exact absurd h (List.not_lt_nil _)
    | cons d ds =>
      rcases List.cons_lt_cons_iff.1 h with hcd | ⟨rfl, hrest⟩
      · exact utf8EncodeChar_append_lt hcd _ _
      · exact List.append_left_lt (ih hrest)

/-- The order of texts is that of their bytes. -/
theorem bytesOf_lt {s t : String} (h : s < t) : bytesOf s < bytesOf t := by
  rw [bytesOf_eq, bytesOf_eq]
  exact flatMap_utf8EncodeChar_lt (String.lt_iff.1 h)

end MonkeyLang.Text
