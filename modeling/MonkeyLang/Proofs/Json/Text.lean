/-
The text of a JSON tree tells the tree and where it ends (`told`): if two trees are written with more text
behind each of them, and the whole is the same, then so are the trees and what is behind them. A string
ends at a quote that is not escaped, a number where no digit follows, and behind an item of a list comes a
comma or the line that closes the list.
-/
import MonkeyLang.Json
import MonkeyLang.Proofs.Program.RoundTrip

namespace MonkeyLang.Json

open Token (isDigit takeWhile_run)

/-! ## Strings -/

/-- The characters that do not stand for themselves in a string. -/
def escapedChars : List Char := '"' :: '\\' :: (List.range 0x20).map Char.ofNat

theorem mem_escapedChars_of_lt {c : Char} (h : c.toNat < 0x20) : c ∈ escapedChars := by
  have hc : c ∈ (List.range 0x20).map Char.ofNat :=
    List.mem_map.2 ⟨c.toNat, List.mem_range.2 h, Char.ofNat_toNat c⟩
  exact List.mem_cons_of_mem _ (List.mem_cons_of_mem _ hc)

theorem stringChar_of_not_mem {c : Char} (h : c ∉ escapedChars) : stringChar c = [c] := by
  unfold stringChar
  split
  -- the characters with an escape of their own, and then the others below the space
  iterate 7 exact absurd (by decide) h
  exact if_neg fun hlt => h (mem_escapedChars_of_lt hlt)

theorem head?_stringChar (c : Char) :
    (stringChar c).head? = some (if c ∈ escapedChars then '\\' else c) := by
  have hescaped : ∀ c ∈ escapedChars, ((stringChar c).head? == some '\\') = true :=
    List.all_eq_true.1 (by decide +kernel)
  split
  · next h => exact eq_of_beq (hescaped c h)
  · next h => rw [stringChar_of_not_mem h, List.head?_cons]

/-- No character is written as the beginning of what another one is written as. -/
theorem eq_of_stringChar_isPrefixOf {c d : Char} (h : stringChar c <+: stringChar d) : c = d := by
  have hescaped : ∀ c ∈ escapedChars, (escapedChars.all fun d =>
      !(stringChar c).isPrefixOf (stringChar d) || c == d) = true := List.all_eq_true.1 (by decide +kernel)
  have hbackslash : '\\' ∈ escapedChars := by decide
  obtain ⟨rest, hrest⟩ := h
  have hhead := congrArg List.head? hrest
  rw [List.head?_append, head?_stringChar, head?_stringChar, Option.some_or, Option.some.injEq] at hhead
  -- the first characters agree, so either both are escaped or neither is
  by_cases hc : c ∈ escapedChars
  · by_cases hd : d ∈ escapedChars
    · have hcd := List.all_eq_true.1 (hescaped c hc) d hd
      simpa [List.isPrefixOf_iff_prefix.2 ⟨rest, hrest⟩] using hcd
    · rw [if_pos hc, if_neg hd] at hhead
      exact absurd (hhead ▸ hbackslash) hd
  · by_cases hd : d ∈ escapedChars
    · rw [if_neg hc, if_pos hd] at hhead
      exact absurd (hhead ▸ hbackslash) hc
    · rwa [if_neg hc, if_neg hd] at hhead

theorem stringChar_append_inj {c d : Char} {r r' : List Char} (h : stringChar c ++ r = stringChar d ++ r') :
    c = d ∧ r = r' := by
  have hcd : c = d := by
    have hc : stringChar c <+: stringChar d ++ r' := ⟨r, h⟩
    rcases List.prefix_or_prefix_of_prefix hc (List.prefix_append _ r') with hcd | hdc
    · exact eq_of_stringChar_isPrefixOf hcd
    · exact (eq_of_stringChar_isPrefixOf hdc).symm
  subst hcd
  exact ⟨rfl, List.append_cancel_left h⟩

theorem stringChar_append_ne_quote (c : Char) (r r' : List Char) : stringChar c ++ r ≠ '"' :: r' := by
  intro h
  have hhead := congrArg List.head? h
  rw [List.head?_append, head?_stringChar, Option.some_or, List.head?_cons, Option.some.injEq] at hhead
  split at hhead
  · cases hhead
  · next hc => exact hc (hhead ▸ List.mem_cons_self)

theorem flatMap_stringChar_inj {cs ds r r' : List Char}
    (h : cs.flatMap stringChar ++ '"' :: r = ds.flatMap stringChar ++ '"' :: r') : cs = ds ∧ r = r' := by
  induction cs generalizing ds with
  | nil =>
    cases ds with
    | nil => exact ⟨rfl, (List.cons.inj h).2⟩
    | cons d ds =>
      rw [List.flatMap_cons, List.append_assoc] at h
      exact absurd h.symm (stringChar_append_ne_quote d _ r)
  | cons c cs ih =>
    rw [List.flatMap_cons, List.append_assoc] at h
    cases ds with
    | nil => exact absurd h (stringChar_append_ne_quote c _ r')
    | cons d ds =>
      rw [List.flatMap_cons, List.append_assoc] at h
      obtain ⟨rfl, hrest⟩ := stringChar_append_inj h
      obtain ⟨rfl, hr⟩ := ih hrest
      exact ⟨rfl, hr⟩

theorem stringText_append_inj {s t : String} {r r' : List Char}
    (h : (stringText s).toList ++ r = (stringText t).toList ++ r') : s = t ∧ r = r' := by
  simp only [stringText, String.toList_ofList, List.cons_append, List.append_assoc, List.nil_append,
    List.cons.injEq, true_and] at h
  obtain ⟨hst, hr⟩ := flatMap_stringChar_inj h
  exact ⟨String.toList_inj.1 hst, hr⟩

/-! ## Numbers -/

/-- What may follow a tree: nothing with which a number would go on. -/
def Stops (r : List Char) : Prop := ∀ c ∈ r.head?, isDigit c = false

theorem stops_nil : Stops [] := by simp [Stops]

theorem stops_cons {c : Char} (h : isDigit c = false) (r : List Char) : Stops (c :: r) := by
  rintro d ⟨⟩
  exact h

theorem digits_append_inj {n k : Nat} {r r' : List Char} (hr : Stops r) (hr' : Stops r')
    (h : Text.digits n ++ r = Text.digits k ++ r') : n = k ∧ r = r' := by
  obtain ⟨hn, hnr⟩ := takeWhile_run (fun _ hc => isDigit_of_mem_digits (n := n) hc) hr
  obtain ⟨hk, hkr⟩ := takeWhile_run (fun _ hc => isDigit_of_mem_digits (n := k) hc) hr'
  -- both numbers are all the digits that the same text starts with
  rw [h] at hn hnr
  have hdigits : Text.digits n = Text.digits k := hn.symm.trans hk
  exact ⟨by rw [← Text.numeral_digits n, hdigits, Text.numeral_digits], hnr.symm.trans hkr⟩

theorem digits_append_ne_minus (n : Nat) (r r' : List Char) : Text.digits n ++ r ≠ '-' :: r' := by
  obtain ⟨c, cs, hc⟩ := List.exists_cons_of_ne_nil (Text.digits_ne_nil n)
  rw [hc]
  rintro ⟨⟩
  have hminus : isDigit '-' = true := isDigit_of_mem_digits (n := n) (hc ▸ List.mem_cons_self)
  exact absurd hminus (by decide)

theorem toList_signedDecimal (n : Int) :
    (Text.signedDecimal n).toList = if n < 0 then '-' :: Text.digits n.natAbs else Text.digits n.natAbs := by
  unfold Text.signedDecimal Text.decimal
  split <;> exact String.toList_ofList

theorem signedDecimal_append_inj {n k : Int} {r r' : List Char} (hr : Stops r) (hr' : Stops r')
    (h : (Text.signedDecimal n).toList ++ r = (Text.signedDecimal k).toList ++ r') : n = k ∧ r = r' := by
  rw [toList_signedDecimal, toList_signedDecimal] at h
  by_cases hn : n < 0
  · by_cases hk : k < 0
    · rw [if_pos hn, if_pos hk] at h
      obtain ⟨habs, hr⟩ := digits_append_inj hr hr' (List.cons.inj h).2
      exact ⟨by omega, hr⟩
    · rw [if_pos hn, if_neg hk] at h
      exact absurd h.symm (digits_append_ne_minus _ _ _)
  · by_cases hk : k < 0
    · rw [if_neg hn, if_pos hk] at h
      exact absurd h (digits_append_ne_minus _ _ _)
    · rw [if_neg hn, if_neg hk] at h
      obtain ⟨habs, hr⟩ := digits_append_inj hr hr' h
      exact ⟨by omega, hr⟩

/-! ## Lists -/

section Lists

variable {α : Type}

/-- What is written for `a` tells `a` and where it ends, whatever is behind it. -/
def Told (write : α → String) (a : α) : Prop :=
  ∀ b r r', Stops r → Stops r' → (write a).toList ++ r = (write b).toList ++ r' → a = b ∧ r = r'

/-- The items behind the first one, each after a comma and a new line. -/
def moreItems (gap : List Char) (write : α → String) (as : List α) : List Char :=
  as.flatMap fun a => ',' :: (gap ++ (write a).toList)

theorem stops_moreItems (gap : List Char) (write : α → String) (as : List α) (r : List Char) :
    Stops (moreItems gap write as ++ '\n' :: r) := by
  cases as with
  | nil => exact stops_cons (by decide) r
  | cons a as => exact stops_cons (by decide) _

theorem moreItems_append_inj {gap : List Char} {write : α → String} {as bs : List α}
    (ha : ∀ a ∈ as, Told write a) {r r' : List Char}
    (h : moreItems gap write as ++ '\n' :: r = moreItems gap write bs ++ '\n' :: r') : as = bs ∧ r = r' := by
  induction as generalizing bs with
  | nil =>
    cases bs with
    | nil => exact ⟨rfl, (List.cons.inj h).2⟩
    | cons b bs => exact absurd (List.cons.inj h).1 (by decide)
  | cons a as ih =>
    cases bs with
    | nil => exact absurd (List.cons.inj h).1 (by decide)
    | cons b bs =>
      simp only [moreItems, List.flatMap_cons, List.cons_append, List.append_assoc, List.cons.injEq, true_and,
        List.append_cancel_left_eq] at h
      obtain ⟨rfl, hrest⟩ := ha a List.mem_cons_self b _ _ (stops_moreItems gap write as r)
        (stops_moreItems gap write bs r') h
      obtain ⟨rfl, hr⟩ := ih (fun x hx => ha x (List.mem_cons_of_mem a hx)) hrest
      exact ⟨rfl, hr⟩

theorem toList_bracketed_nil (opening closing : String) (level : Nat) :
    (bracketed opening closing level []).toList = opening.toList ++ closing.toList := by
  simp [bracketed]

theorem intercalate_map_cons (gap : List Char) (write : α → String) (a : α) (as : List α) :
    List.intercalate (',' :: gap) (((a :: as).map write).map String.toList) =
      (write a).toList ++ moreItems gap write as := by
  induction as generalizing a with
  | nil => simp [moreItems]
  | cons b bs ih =>
    rw [List.map_cons, List.map_cons, List.map_cons, List.map_cons, List.intercalate_cons_cons, ← List.map_cons,
      ← List.map_cons, ih b]
    simp [moreItems]

theorem toList_bracketed_cons (opening closing : String) (level : Nat) (write : α → String) (a : α) (as : List α) :
    (bracketed opening closing level ((a :: as).map write)).toList =
      opening.toList ++ '\n' :: (List.replicate (2 * (level + 1)) ' ' ++ ((write a).toList ++
        (moreItems (newline (level + 1)).toList write as ++
          '\n' :: (List.replicate (2 * level) ' ' ++ closing.toList)))) := by
  have hsep : ("," ++ newline (level + 1)).toList = ',' :: (newline (level + 1)).toList := by simp
  rw [bracketed, if_neg (by simp)]
  simp only [String.toList_append, String.toList_intercalate, hsep, intercalate_map_cons]
  simp [newline]

/-- A list of items in brackets tells its items and where it ends. -/
theorem bracketed_append_inj {opening closing : String} {level : Nat} {write : α → String} {as bs : List α}
    (hclosing : ∃ c cs, closing.toList = c :: cs ∧ c ≠ '\n') (ha : ∀ a ∈ as, Told write a) {r r' : List Char}
    (h : (bracketed opening closing level (as.map write)).toList ++ r =
      (bracketed opening closing level (bs.map write)).toList ++ r') : as = bs ∧ r = r' := by
  obtain ⟨c, cs, hc, hne⟩ := hclosing
  -- a list without items is closed at once, any other goes on with a new line
  cases as with
  | nil =>
    cases bs with
    | nil => exact ⟨rfl, List.append_cancel_left h⟩
    | cons b bs =>
      rw [List.map_nil, toList_bracketed_nil, toList_bracketed_cons, hc] at h
      simp only [List.append_assoc, List.cons_append, List.append_cancel_left_eq, List.cons.injEq] at h
      exact absurd h.1 hne
  | cons a as =>
    cases bs with
    | nil =>
      rw [List.map_nil, toList_bracketed_nil, toList_bracketed_cons, hc] at h
      simp only [List.append_assoc, List.cons_append, List.append_cancel_left_eq, List.cons.injEq] at h
      exact absurd h.1.symm hne
    | cons b bs =>
      rw [toList_bracketed_cons, toList_bracketed_cons] at h
      simp only [List.append_assoc, List.cons_append, List.append_cancel_left_eq, List.cons.injEq, true_and] at h
      obtain ⟨rfl, hrest⟩ := ha a List.mem_cons_self b _ _ (stops_moreItems _ write as _)
        (stops_moreItems _ write bs _) h
      obtain ⟨rfl, hr⟩ := moreItems_append_inj (fun x hx => ha x (List.mem_cons_of_mem a hx)) hrest
      exact ⟨rfl, by simpa using hr⟩

end Lists

/-! ## Trees -/

theorem itemTexts_eq_map (js : List Json) (level : Nat) : itemTexts js level = js.map (textAt · level) := by
  induction js with
  | nil => rfl
  | cons j js ih => rw [itemTexts, ih, List.map_cons]

def fieldText (level : Nat) (f : String × Json) : String := stringText f.1 ++ ": " ++ f.2.textAt level

theorem fieldTexts_eq_map (fs : List (String × Json)) (level : Nat) :
    fieldTexts fs level = fs.map (fieldText level) := by
  induction fs with
  | nil => rfl
  | cons f fs ih => rw [fieldTexts, ih, List.map_cons, fieldText]

theorem told_field {level : Nat} {name : String} {j : Json} (h : Told (textAt · level) j) :
    Told (fieldText level) (name, j) := by
  rintro ⟨name', k⟩ r r' hr hr' htext
  simp only [fieldText, String.toList_append, List.append_assoc] at htext
  obtain ⟨rfl, hrest⟩ := stringText_append_inj htext
  obtain ⟨rfl, hr⟩ := h k r r' hr hr' (List.append_cancel_left hrest)
  exact ⟨rfl, hr⟩

/-- The kinds of trees. -/
inductive Form where
  | null
  | bool
  | int
  | string
  | array
  | object
deriving DecidableEq

def form : Json → Form
  | null => .null
  | bool _ => .bool
  | int _ => .int
  | string _ => .string
  | array _ => .array
  | object _ => .object

/-- The kind of a tree whose text starts with a character. -/
def Form.ofHead (c : Char) : Form :=
  match c with
  | 'n' => .null
  | 't' | 'f' => .bool
  | '"' => .string
  | '[' => .array
  | '\x7b' => .object
  | _ => .int

theorem Form.ofHead_of_isDigit {c : Char} (h : isDigit c = true) : ofHead c = .int := by
  unfold ofHead
  split
  iterate 6 exact absurd h (by decide)
  rfl

theorem head?_bracketed {opening closing : String} {c : Char} (h : opening.toList = [c]) (level : Nat)
    (items : List String) : (bracketed opening closing level items).toList.head? = some c := by
  unfold bracketed
  split <;> simp [h]

theorem head?_signedDecimal (n : Int) : (Text.signedDecimal n).toList.head?.map Form.ofHead = some .int := by
  rw [toList_signedDecimal]
  split
  · rfl
  · obtain ⟨c, cs, hc⟩ := List.exists_cons_of_ne_nil (Text.digits_ne_nil n.natAbs)
    have hdigit : isDigit c = true := isDigit_of_mem_digits (n := n.natAbs) (hc ▸ List.mem_cons_self)
    rw [hc, List.head?_cons, Option.map_some, Form.ofHead_of_isDigit hdigit]

/-- The first character of a text tells the kind of the tree. -/
theorem head?_textAt (j : Json) (level : Nat) : (j.textAt level).toList.head?.map Form.ofHead = some j.form := by
  cases j with
  | null => simp [textAt, Form.ofHead, form]
  | bool b => cases b <;> simp [textAt, Form.ofHead, form]
  | int n => exact head?_signedDecimal n
  | string s => simp [textAt, stringText, Form.ofHead, form]
  | array items => rw [textAt, head?_bracketed (c := '[') rfl]; rfl
  | object fields => rw [textAt, head?_bracketed (c := '\x7b') rfl]; rfl

theorem form_eq_of_append_eq {j k : Json} {level : Nat} {r r' : List Char}
    (h : (j.textAt level).toList ++ r = (k.textAt level).toList ++ r') : j.form = k.form := by
  have hj := head?_textAt j level
  have hk := head?_textAt k level
  obtain ⟨c, hc, hcj⟩ := Option.map_eq_some_iff.1 hj
  obtain ⟨d, hd, hdk⟩ := Option.map_eq_some_iff.1 hk
  have hhead := congrArg List.head? h
  rw [List.head?_append, List.head?_append, hc, hd, Option.some_or, Option.some_or, Option.some.injEq] at hhead
  rw [← hcj, ← hdk, hhead]

/-- A tree is told by its text if it is told from the trees of its own kind. -/
theorem told_of_form {j : Json} {level : Nat}
    (h : ∀ k r r', j.form = k.form → Stops r → Stops r' →
      (j.textAt level).toList ++ r = (k.textAt level).toList ++ r' → j = k ∧ r = r') :
    Told (textAt · level) j :=
  fun k r r' hr hr' htext => h k r r' (form_eq_of_append_eq htext) hr hr' htext

mutual

theorem told : ∀ (j : Json) (level : Nat), Told (textAt · level) j
  | .null, level => told_of_form fun k r r' hform hr hr' h => by
    cases k <;> cases hform
    exact ⟨rfl, List.append_cancel_left h⟩
  | .bool b, level => told_of_form fun k r r' hform hr hr' h => by
    cases k <;> cases hform
    next d => cases b <;> cases d <;> simp_all [textAt]
  | .int n, level => told_of_form fun k r r' hform hr hr' h => by
    cases k <;> cases hform
    next m =>
    obtain ⟨rfl, hrest⟩ := signedDecimal_append_inj hr hr' h
    exact ⟨rfl, hrest⟩
  | .string s, level => told_of_form fun k r r' hform hr hr' h => by
    cases k <;> cases hform
    next t =>
    obtain ⟨rfl, hrest⟩ := stringText_append_inj h
    exact ⟨rfl, hrest⟩
  | .array items, level => told_of_form fun k r r' hform hr hr' h => by
    cases k <;> cases hform
    next items' =>
    rw [textAt, textAt, itemTexts_eq_map, itemTexts_eq_map] at h
    obtain ⟨rfl, hrest⟩ := bracketed_append_inj ⟨']', [], rfl, by decide⟩ (told_items items (level + 1)) h
    exact ⟨rfl, hrest⟩
  | .object fields, level => told_of_form fun k r r' hform hr hr' h => by
    cases k <;> cases hform
    next fields' =>
    rw [textAt, textAt, fieldTexts_eq_map, fieldTexts_eq_map] at h
    obtain ⟨rfl, hrest⟩ := bracketed_append_inj ⟨'\x7d', [], rfl, by decide⟩ (told_fields fields (level + 1)) h
    exact ⟨rfl, hrest⟩

theorem told_items : ∀ (js : List Json) (level : Nat), ∀ j ∈ js, Told (textAt · level) j
  | [], _ => by simp
  | j :: js, level => List.forall_mem_cons.2 ⟨told j level, told_items js level⟩

theorem told_fields : ∀ (fs : List (String × Json)) (level : Nat), ∀ f ∈ fs, Told (fieldText level) f
  | [], _ => by simp
  | (_, j) :: fs, level => List.forall_mem_cons.2 ⟨told_field (told j level), told_fields fs level⟩

end

/-- Different trees have different texts. -/
theorem text_inj {j k : Json} : j.text = k.text ↔ j = k := by
  refine ⟨fun h => ?_, fun h => h ▸ rfl⟩
  have htext : (j.textAt 0).toList ++ [] = (k.textAt 0).toList ++ [] := congrArg (·.toList ++ []) h
  exact (told j 0 k [] [] stops_nil stops_nil htext).1

end MonkeyLang.Json
