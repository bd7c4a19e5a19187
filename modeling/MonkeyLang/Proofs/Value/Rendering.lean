/-
The texts of values, plain and with types, against the way in which data is nested. A value stands in
others at each of its occurrences (`Occurs`), and `Written` says how it is written there: an array that
stands inside itself is cut off, everything else is spelled out. Each value has one text (`Written.unique`),
and the two functions that print values give that text (`WF.written_shown`). An array that does not hold
itself reads the same wherever it stands (`WF.written_inside_iff`); where no array holds itself, nothing is
cut off, and the text is the plain spelling of the value.
-/
import MonkeyLang.Proofs.Store.Reachable
import MonkeyLang.Proofs.Value.Layout

namespace MonkeyLang

/-- The two ways to write a value: as a program prints it, and with its type. -/
inductive Style where
  | plain
  | typed

namespace Style

/-- An array from the texts of its elements. -/
def array : Style → List String → String
  | .plain, ts => "[" ++ ", ".intercalate ts ++ "]"
  | .typed, ts => "Array([" ++ ", ".intercalate ts ++ "])"

/-- An array that is cut off. -/
def cut : Style → String
  | .plain => "[...]"
  | .typed => "Array([...])"

/-- A hash from the texts of its keys and values. -/
def hash : Style → List (String × String) → String
  | .plain, ts => hashText (ts.map fun t => t.1 ++ ": " ++ t.2)
  | .typed, ts => "Hash(\x7b" ++ ", ".intercalate (ts.map fun t => t.1 ++ ": " ++ t.2) ++ "\x7d)"

/-- The text of a value that holds no others. -/
def leaf? (s : Store) : Style → Value → Option String
  | .plain, .int n => some (Text.signedDecimal n.toInt)
  | .plain, .bool b => some (if b then "true" else "false")
  | .plain, .null => some "null"
  | .plain, .string t => some t
  | .plain, .function r => (s.closure? r).map fun c => functionText c.params (Stmt.texts c.body)
  | .plain, .builtin _ => some "builtin function"
  | .plain, .error e => some ("ERROR: " ++ e.message)
  | .typed, .int n => some ("Integer(" ++ Text.signedDecimal n.toInt ++ ")")
  | .typed, .bool b => some ("Boolean(" ++ (if b then "true" else "false") ++ ")")
  | .typed, .null => some "Null"
  | .typed, .string t => some ("String(" ++ Text.quoted t ++ ")")
  | .typed, .function r => (s.closure? r).map fun c => "Function(" ++ functionText c.params (Stmt.texts c.body) ++ ")"
  | .typed, .builtin b => some ("Builtin(" ++ b.name ++ ")")
  | .typed, .error e => some ("Error(" ++ Outline.errorDetail e ++ ")")
  | _, .array _ => none
  | _, .hash _ => none

end Style

namespace Outline

def inStyle (o : Outline) : Style → String
  | .plain => o.text
  | .typed => o.detail

theorem details_eq_map (os : List Outline) : details os = os.map detail := by
  induction os with
  | nil => rfl
  | cons o os ih => rw [details, ih, List.map_cons]

theorem pairDetails_eq_map (ps : List (Outline × Outline)) :
    pairDetails ps = ps.map fun q => q.1.detail ++ ": " ++ q.2.detail := by
  induction ps with
  | nil => rfl
  | cons q ps ih => rw [pairDetails, ih, List.map_cons]

theorem inStyle_array (st : Style) (os : List Outline) :
    (array os).inStyle st = st.array (os.map fun o => o.inStyle st) := by
  cases st with
  | plain => simp [inStyle, text, Style.array, texts_eq_map]
  | typed => simp [inStyle, detail, Style.array, details_eq_map]

theorem inStyle_hash (st : Style) (ps : List (Outline × Outline)) :
    (hash ps).inStyle st = st.hash (ps.map fun q => (q.1.inStyle st, q.2.inStyle st)) := by
  cases st with
  | plain => simp [inStyle, text, Style.hash, pairTexts_eq_map, Function.comp_def]
  | typed => simp [inStyle, detail, Style.hash, pairDetails_eq_map, Function.comp_def]

theorem inStyle_cut (st : Style) : cut.inStyle st = st.cut := by
  cases st <;> rfl

end Outline

namespace Store

/-- The text of a value in a style. -/
def shown (s : Store) (st : Style) (v : Value) : String :=
  match st with
  | .plain => s.text v
  | .typed => s.detail v

theorem shown_eq (s : Store) (st : Style) (v : Value) : s.shown st v = (s.outline v).inStyle st := by
  cases st <;> rfl

/-! ## What stands in what -/

/-- An element of an array, or a key or a value of a hash. -/
inductive Part (s : Store) : Value → Value → Prop where
  | element {r : ArrayRef} {w : Value} (h : w ∈ (s.elements r).toList) : Part s (.array r) w
  | key {r : HashRef} {p : HashPair} (h : p ∈ (s.hash r).pairs) : Part s (.hash r) p.key
  | value {r : HashRef} {p : HashPair} (h : p ∈ (s.hash r).pairs) : Part s (.hash r) p.value

/-- Somewhere in `v` there is a `w`, and `above` is what it stands in, from the nearest out to `v`. -/
inductive Occurs (s : Store) (v : Value) : List Value → Value → Prop where
  | self : Occurs s v [] v
  | part {above : List Value} {x w : Value} (hx : Occurs s v above x) (hw : s.Part x w) : Occurs s v (x :: above) w

/-- An array that is found again somewhere in itself. -/
def HoldsItself (s : Store) (r : ArrayRef) : Prop := Relation.TransGen s.Part (.array r) (.array r)

variable {s : Store} {v w x : Value} {above above' below : List Value}

theorem Occurs.reflTransGen (h : s.Occurs v above w) : Relation.ReflTransGen s.Part v w := by
  induction h with
  | self => exact .refl
  | part _ hw ih => exact ih.tail hw

/-- What a value stands in leads down to it. -/
theorem Occurs.transGen (h : s.Occurs v above w) (hx : x ∈ above) : Relation.TransGen s.Part x w := by
  induction h with
  | self => cases hx
  | part _ hw ih =>
    rcases List.mem_cons.1 hx with rfl | hx
    · exact .single hw
    · exact (ih hx).tail hw

/-- What is found in a part of a value is found in the value. -/
theorem Occurs.of_part (hx : s.Part x v) (h : s.Occurs v below w) : s.Occurs x (below ++ [x]) w := by
  induction h with
  | self => exact .part .self hx
  | part _ hw ih => exact .part ih hw

theorem WF.hasValue_of_part (hs : s.WF) (h : s.Part v w) : s.HasValue w := by
  cases h with
  | element h => exact hs.hasValue_of_mem_elements (by simpa using h)
  | key h =>
    obtain ⟨e, he, rfl⟩ := List.mem_map.1 h
    exact ((hs.holds_hash _).entries e he).1
  | value h =>
    obtain ⟨e, he, rfl⟩ := List.mem_map.1 h
    exact ((hs.holds_hash _).entries e he).2

theorem WF.hasValue_of_occurs (hs : s.WF) (hv : s.HasValue v) (h : s.Occurs v above w) : s.HasValue w := by
  cases h with
  | self => exact hv
  | part _ hw => exact hs.hasValue_of_part hw

/-! ## How a value is written -/

/-- How a value is written where it stands in the values of `above`, the nearest first. Which arrays are cut
off there is a parameter. -/
inductive Written (s : Store) (st : Style) (cuts : List Value → ArrayRef → Prop) : List Value → Value → String → Prop where
  | leaf {above : List Value} {v : Value} {t : String} (h : st.leaf? s v = some t) : Written s st cuts above v t
  | cut {above : List Value} {r : ArrayRef} (hr : cuts above r) : Written s st cuts above (.array r) st.cut
  | array {above : List Value} {r : ArrayRef} {ts : List String} (hr : ¬ cuts above r)
    (hlen : (s.elements r).toList.length = ts.length)
    (h : ∀ p ∈ (s.elements r).toList.zip ts, Written s st cuts (.array r :: above) p.1 p.2) :
    Written s st cuts above (.array r) (st.array ts)
  | hash {above : List Value} {r : HashRef} {ts : List (String × String)}
    (hlen : (s.hash r).pairs.length = ts.length)
    (hk : ∀ p ∈ (s.hash r).pairs.zip ts, Written s st cuts (.hash r :: above) p.1.key p.2.1)
    (hv : ∀ p ∈ (s.hash r).pairs.zip ts, Written s st cuts (.hash r :: above) p.1.value p.2.2) :
    Written s st cuts above (.hash r) (st.hash ts)

/-- An array is cut off inside itself. -/
def insideItself (above : List Value) (r : ArrayRef) : Prop := .array r ∈ above

/-- No array is cut off. -/
def nowhere (_ : List Value) (_ : ArrayRef) : Prop := False

variable {st : Style} {cuts cuts' : List Value → ArrayRef → Prop} {r : ArrayRef} {t t' : String}

theorem Written.unique (h : s.Written st cuts above v t) (h' : s.Written st cuts above v t') : t = t' := by
  induction h generalizing t' with
  | @leaf above v t h =>
    cases h' with
    | leaf h' => exact Option.some.inj (h.symm.trans h')
    | cut | array | hash => cases st <;> cases h
  | cut hr =>
    cases h' with
    | leaf h' => cases st <;> cases h'
    | cut => rfl
    | array hr' => exact absurd hr hr'
  | array hr hlen _ ih =>
    cases h' with
    | leaf h' => cases st <;> cases h'
    | cut hr' => exact absurd hr' hr
    | array _ hlen' h' => rw [eq_of_zip hlen hlen' fun p hp w hw => ih p hp (h' _ hw)]
  | hash hlen _ _ ihk ihv =>
    cases h' with
    | leaf h' => cases st <;> cases h'
    | hash hlen' hk' hv' =>
      rw [eq_of_zip hlen hlen' fun p hp w hw => Prod.ext (ihk p hp (hk' _ hw)) (ihv p hp (hv' _ hw))]

/-- A value is written the same in two places if the same arrays of it are cut off in both. -/
theorem Written.congr (h : s.Written st cuts above v t)
    (hc : ∀ below r, s.Occurs v below (.array r) → (cuts (below ++ above) r ↔ cuts' (below ++ above') r)) :
    s.Written st cuts' above' v t := by
  induction h generalizing above' with
  | leaf h => exact .leaf h
  | cut hr => exact .cut ((hc [] _ .self).1 hr)
  | @array above r ts hr hlen h ih =>
    refine .array (fun hr' => hr ((hc [] _ .self).2 hr')) hlen fun p hp => ih p hp fun below q hq => ?_
    have hpart : s.Part (.array r) p.1 := .element (List.of_mem_zip hp).1
    simpa using hc _ q (hq.of_part hpart)
  | @hash above r ts hlen hk hv ihk ihv =>
    refine .hash hlen (fun p hp => ihk p hp fun below q hq => ?_) fun p hp => ihv p hp fun below q hq => ?_
    · have hpart : s.Part (.hash r) p.1.key := .key (List.of_mem_zip hp).1
      simpa using hc _ q (hq.of_part hpart)
    · have hpart : s.Part (.hash r) p.1.value := .value (List.of_mem_zip hp).1
      simpa using hc _ q (hq.of_part hpart)

theorem written_congr_iff
    (hc : ∀ below r, s.Occurs v below (.array r) → (cuts (below ++ above) r ↔ cuts' (below ++ above') r)) :
    s.Written st cuts above v t ↔ s.Written st cuts' above' v t :=
  ⟨fun h => h.congr hc, fun h => h.congr fun below r hr => (hc below r hr).symm⟩

/-- What a value stands in does not matter if none of its arrays is among it. -/
theorem written_insideItself_congr (h : ∀ below r, s.Occurs v below (.array r) → .array r ∉ above) :
    s.Written st insideItself above v t ↔ s.Written st insideItself [] v t := by
  refine written_congr_iff fun below r hr => ?_
  simp [insideItself, h below r hr]

/-- Where no array holds itself, none is cut off. -/
theorem written_nowhere_iff (h : ∀ above r, s.Occurs v above (.array r) → ¬ s.HoldsItself r) :
    s.Written st nowhere [] v t ↔ s.Written st insideItself [] v t := by
  refine written_congr_iff fun below r hr => ?_
  have hnot : .array r ∉ below := fun hmem => h below r hr (hr.transGen hmem)
  simp [nowhere, insideItself, hnot]

/-! ## The printed text -/

/-- A value that is laid out is written as its layout is. The layout keeps track of arrays only. -/
theorem LaidOut.written {path : List ArrayRef} {o : Outline} (h : s.LaidOut path v o)
    (hp : ∀ r, .array r ∈ above ↔ r ∈ path) : s.Written st insideItself above v (o.inStyle st) := by
  induction h generalizing above with
  | int | bool | null | string | builtin | error => cases st <;> exact .leaf rfl
  | function path hc => cases st <;> exact .leaf (by simp [Style.leaf?, hc, Outline.inStyle, Outline.text, Outline.detail])
  | cut hr =>
    rw [Outline.inStyle_cut]
    exact .cut ((hp _).2 hr)
  | @array path r os hr hlen h ih =>
    rw [Outline.inStyle_array]
    refine .array (fun hr' => hr ((hp r).1 hr')) (by simpa using hlen) fun p hq => ?_
    rw [List.zip_map_right, List.mem_map] at hq
    obtain ⟨q, hq, rfl⟩ := hq
    exact ih q hq fun r' => by simp [hp]
  | @hash path r os hlen hk hv ihk ihv =>
    have hp' : ∀ r', .array r' ∈ .hash r :: above ↔ r' ∈ path := fun r' => by simp [hp]
    rw [Outline.inStyle_hash]
    refine .hash (by simpa using hlen) (fun p hq => ?_) fun p hq => ?_
    · rw [List.zip_map_right, List.mem_map] at hq
      obtain ⟨q, hq, rfl⟩ := hq
      exact ihk q hq hp'
    · rw [List.zip_map_right, List.mem_map] at hq
      obtain ⟨q, hq, rfl⟩ := hq
      exact ihv q hq hp'

theorem WF.written_shown (hs : s.WF) (hv : s.HasValue v) : s.Written st insideItself [] v (s.shown st v) := by
  rw [shown_eq]
  exact (hs.laidOut_outline hv).written (by simp)

theorem WF.written_iff (hs : s.WF) (hv : s.HasValue v) : s.Written st insideItself [] v t ↔ t = s.shown st v :=
  ⟨fun h => h.unique (hs.written_shown hv), fun h => h ▸ hs.written_shown hv⟩

/-- An array that does not hold itself reads the same wherever it stands: it is in none of its parts, and
neither is what it stands in. -/
theorem WF.written_inside_iff (hs : s.WF) (hv : s.HasValue v) (ho : s.Occurs v above (.array r))
    (hr : ¬ s.HoldsItself r) : s.Written st insideItself above (.array r) t ↔ t = s.shown st (.array r) := by
  rw [written_insideItself_congr, hs.written_iff (hs.hasValue_of_occurs hv ho)]
  intro below q hq hmem
  exact hr (Relation.TransGen.trans_right hq.reflTransGen (ho.transGen hmem))

/-- Such an array is spelled out: its elements as they read on their own. -/
theorem WF.shown_array (hs : s.WF) (hv : s.HasValue (.array r)) (hr : ¬ s.HoldsItself r) :
    s.shown st (.array r) = st.array ((s.elements r).toList.map (s.shown st)) := by
  refine ((hs.written_iff hv).1 (.array (by simp [insideItself]) (by simp) fun p hp => ?_)).symm
  obtain ⟨hmem, heq⟩ := of_mem_zip_map hp
  have hpart : s.Part (.array r) p.1 := .element hmem
  rw [heq, written_insideItself_congr]
  · exact hs.written_shown (hs.hasValue_of_part hpart)
  · intro below q hq hq'
    rw [List.mem_singleton] at hq'
    exact hr (Relation.TransGen.head' hpart (hq' ▸ hq.reflTransGen))

/-- The text of a value of a well-formed store, in either style, needs no more depth than the store allows
for, and it is the one way to write the value with an array cut off where it stands inside itself and only
there. So an array that does not hold itself is spelled out, and the same, wherever it stands; and if no
array in the value holds itself, the text is the one way to write the value with nothing cut off. -/
theorem written_iff_eq_shown (hs : s.WF) (hv : s.HasValue v) (st : Style) :
    (∀ n, s.depthBound ≤ n → (s.outlineWithin n [] v).inStyle st = s.shown st v) ∧
    (∀ t, s.Written st insideItself [] v t ↔ t = s.shown st v) ∧
    (∀ above r, s.Occurs v above (.array r) → ¬ s.HoldsItself r →
      (∀ t, s.Written st insideItself above (.array r) t ↔ t = s.shown st (.array r)) ∧
      s.shown st (.array r) = st.array ((s.elements r).toList.map (s.shown st))) ∧
    ((∀ above r, s.Occurs v above (.array r) → ¬ s.HoldsItself r) →
      ∀ t, s.Written st nowhere [] v t ↔ t = s.shown st v) := by
  refine ⟨fun n hn => ?_, fun t => hs.written_iff hv, fun above r ho hr => ⟨fun t => ?_, ?_⟩, fun hno t => ?_⟩
  · rw [hs.outlineWithin_eq_outline hv hn, shown_eq]
  · exact hs.written_inside_iff hv ho hr
  · exact hs.shown_array (hs.hasValue_of_occurs hv ho) hr
  · rw [written_nowhere_iff hno, hs.written_iff hv]

/-- An array that holds itself, also through a hash, and twice another array. -/
def knot : Store :=
  let empty := (initial.newArray #[]).2
  let pair := (empty.newArray #[.int 2]).2
  let table := (pair.newHash ⟨[(.boolean true, ⟨.bool true, .array ⟨0⟩⟩)]⟩).2
  table.setElements ⟨0⟩ #[.int 1, .array ⟨0⟩, .hash ⟨0⟩, .array ⟨1⟩, .array ⟨1⟩]

theorem reachable_knot : knot.Reachable := by
  have h1 := Reachable.initial.step (.newArray #[] (by simp))
  have h2 := h1.step (.newArray #[.int 2] (by simp [HasValue]))
  have h3 := h2.step (.newHash ⟨[(.boolean true, ⟨.bool true, .array ⟨0⟩⟩)]⟩
    ⟨by simp [HasValue, newArray], by simp⟩)
  exact h3.step (.setElements ⟨0⟩ #[.int 1, .array ⟨0⟩, .hash ⟨0⟩, .array ⟨1⟩, .array ⟨1⟩]
    (by simp [HasValue, newArray, newHash]))

theorem eq_of_part_knot (h : knot.Part (.array ⟨1⟩) w) : w = .int 2 := by
  cases h with
  | element h => exact List.mem_singleton.1 h

theorem not_holdsItself_knot : ¬ knot.HoldsItself ⟨1⟩ := by
  intro h
  obtain ⟨w, hw, h⟩ := Relation.TransGen.head'_iff.1 h
  obtain rfl := eq_of_part_knot hw
  rcases Relation.ReflTransGen.cases_head h with h | ⟨x, hx, -⟩
  · cases h
  · cases hx

theorem eq_of_occurs_knot (h : knot.Occurs (.array ⟨1⟩) above (.array r)) : r = ⟨1⟩ := by
  rcases Relation.ReflTransGen.cases_head h.reflTransGen with h | ⟨w, hw, h⟩
  · cases h
    rfl
  · obtain rfl := eq_of_part_knot hw
    rcases Relation.ReflTransGen.cases_head h with h | ⟨x, hx, -⟩
    · cases h
    · cases hx

theorem written_iff_eq_shown_knot : knot.WF ∧ knot.HasValue (.array ⟨0⟩) ∧ knot.HoldsItself ⟨0⟩ ∧
    knot.Written .plain insideItself [] (.array ⟨0⟩) "[1, [...], \x7b true: [...] \x7d, [2], [2]]" ∧
    knot.Written .typed insideItself [.array ⟨0⟩] (.array ⟨1⟩) "Array([Integer(2)])" ∧
    knot.Written .plain nowhere [] (.array ⟨1⟩) "[2]" := by
  have hs := reachable_knot.wf
  have hv : knot.HasValue (.array ⟨0⟩) := Nat.zero_lt_succ 1
  have hself : knot.Part (.array ⟨0⟩) (.array ⟨0⟩) := .element (by decide)
  have hin : knot.Occurs (.array ⟨0⟩) [.array ⟨0⟩] (.array ⟨1⟩) := .part .self (.element (by decide))
  have hv' : knot.HasValue (.array ⟨1⟩) := hs.hasValue_of_occurs hv hin
  obtain ⟨-, hplain, -, -⟩ := written_iff_eq_shown hs hv .plain
  obtain ⟨-, -, hinside, -⟩ := written_iff_eq_shown hs hv .typed
  obtain ⟨-, -, -, hwhole⟩ := written_iff_eq_shown hs hv' .plain
  refine ⟨hs, hv, .single hself, (hplain _).2 (by decide +kernel), ?_, ?_⟩
  · exact ((hinside _ _ hin not_holdsItself_knot).1 _).2 (by decide +kernel)
  · refine (hwhole (fun above r hr => ?_) _).2 (by decide +kernel)
    exact eq_of_occurs_knot hr ▸ not_holdsItself_knot

end Store

end MonkeyLang
