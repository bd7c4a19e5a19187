/-
One text read through two doors, in any order. Whatever the requests, the tokens handed out are those of the
text in their order, with the token for its end again and again behind them; a request is refused exactly when
it is a step and stepping has handed out the token for the end before; and a refused request might as well not
have been made (`doors_agree`).

Everything follows from what a single request can do (`take_cases`), by induction on the requests from any
position of the stream.
-/
import MonkeyLang.Proofs.Token.Reader
import MonkeyLang.Token.Stream
import Mathlib.Data.List.ReduceOption

namespace MonkeyLang.Token.Stream

/-! ## One request -/

/-- A request is refused, or hands out the next token, or hands out the token for the end and stays. -/
theorem take_cases (s : Stream) (d : Door) :
    (d = .step ∧ s.ended = true ∧ s.take d = (none, s)) ∨
    (∃ t r, ¬ (d = .step ∧ s.ended = true) ∧ s.reader.next? = some (t, r) ∧ s.take d = (some t, ⟨r, s.ended⟩)) ∨
    (¬ (d = .step ∧ s.ended = true) ∧ s.reader.next? = none ∧
      s.take d = (some (endAt s.reader.finish), ⟨s.reader, s.ended || d == .step⟩)) := by
  obtain ⟨r, ended⟩ := s
  cases d with
  | pull =>
    cases hn : r.next? with
    | none => simp [take, pull, hn]
    | some q => simp [take, pull, hn]
  | step =>
    cases ended with
    | true => simp [take, step]
    | false =>
      cases hn : r.next? with
      | none => simp [take, step, pull, hn, endAt]
      | some q => simp [take, step, pull, hn, Reader.kind_ne_of_next? hn]

/-- A refused request does not move the stream. -/
theorem take_of_none {s : Stream} {d : Door} (h : (s.take d).1 = none) : s.take d = (none, s) := by
  obtain ⟨-, -, ht⟩ | ⟨t, r, -, -, ht⟩ | ⟨-, -, ht⟩ := s.take_cases d
  · exact ht
  · rw [ht] at h
    cases h
  · rw [ht] at h
    cases h

/-- Only a step that hands out the token for the end makes stepping end. -/
theorem ended_take (s : Stream) (d : Door) : (s.take d).2.ended = true ↔
    s.ended = true ∨ d = .step ∧ ∃ t, (s.take d).1 = some t ∧ t.kind = .endOfInput := by
  obtain ⟨-, he, ht⟩ | ⟨t, r, -, hn, ht⟩ | ⟨-, -, ht⟩ := s.take_cases d
  · simp [ht, he]
  · simp [ht, Reader.kind_ne_of_next? hn]
  · simp [ht, endAt]

/-! ## All requests -/

theorem takeAll_cons (s : Stream) (d : Door) (ds : List Door) :
    s.takeAll (d :: ds) = (s.take d).1 :: (s.take d).2.takeAll ds := rfl

theorem length_takeAll (s : Stream) (ds : List Door) : (s.takeAll ds).length = ds.length := by
  induction ds generalizing s with
  | nil => rfl
  | cons d ds ih => rw [takeAll_cons, List.length_cons, ih, List.length_cons]

/-- The tokens handed out are the unread ones in their order, and then copies of the last. -/
theorem reduceOption_takeAll_prefix (s : Stream) (ds : List Door) :
    (s.takeAll ds).reduceOption <+: s.reader.tokens ++ List.replicate ds.length (endAt s.reader.finish) := by
  induction ds generalizing s with
  | nil => exact List.nil_prefix
  | cons d ds ih =>
    rw [takeAll_cons, List.length_cons]
    obtain ⟨-, -, ht⟩ | ⟨t, r, -, hn, ht⟩ | ⟨-, hn, ht⟩ := s.take_cases d
    · -- nothing is handed out, and one copy less is needed
      rw [ht, List.reduceOption_cons_of_none, List.replicate_succ', ← List.append_assoc]
      exact (ih s).trans (List.prefix_append ..)
    · have hrest := ih ⟨r, s.ended⟩
      rw [Reader.finish_of_next? hn] at hrest
      rw [ht, List.reduceOption_cons_of_some, Reader.tokens_of_some hn, List.cons_append, List.prefix_cons_inj]
      exact hrest.trans (List.prefix_append_right_inj _ |>.2 (by simp [List.replicate_succ']))
    · have hrest := ih ⟨s.reader, s.ended || d == .step⟩
      rw [Reader.tokens_of_none hn] at hrest ⊢
      rw [ht, List.reduceOption_cons_of_some, List.singleton_append, List.prefix_cons_inj]
      exact hrest

/-- The request `i` was a step, and it handed out the token for the end. -/
def EndsSteps (ds : List Door) (answers : List (Option Token)) (i : Nat) : Prop :=
  ds[i]? = some .step ∧ ∃ t, answers[i]? = some (some t) ∧ t.kind = .endOfInput

/-- A request is refused if it is a step behind another one that handed out the token for the end. -/
theorem takeAll_eq_none_iff (s : Stream) (ds : List Door) (i : Nat) :
    (s.takeAll ds)[i]? = some none ↔
      ds[i]? = some .step ∧ (s.ended = true ∨ ∃ j < i, EndsSteps ds (s.takeAll ds) j) := by
  induction ds generalizing s i with
  | nil => simp [takeAll]
  | cons d ds ih =>
    rw [takeAll_cons]
    cases i with
    | zero =>
      obtain ⟨rfl, he, ht⟩ | ⟨t, r, hd, -, ht⟩ | ⟨hd, -, ht⟩ := s.take_cases d
      · simp [ht, he]
      · simpa [ht] using hd
      · simpa [ht] using hd
    | succ i =>
      -- what the first request did is told by the stream behind it
      have hfirst : EndsSteps (d :: ds) ((s.take d).1 :: (s.take d).2.takeAll ds) 0 ↔
          d = .step ∧ ∃ t, (s.take d).1 = some t ∧ t.kind = .endOfInput := by
        simp [EndsSteps]
      rw [List.getElem?_cons_succ, List.getElem?_cons_succ, ih, ended_take, Nat.exists_lt_succ_left, hfirst, or_assoc]
      rfl

theorem takeAll_eraseIdx {s : Stream} {ds : List Door} {i : Nat} (h : (s.takeAll ds)[i]? = some none) :
    s.takeAll (ds.eraseIdx i) = (s.takeAll ds).eraseIdx i := by
  induction ds generalizing s i with
  | nil => cases h
  | cons d ds ih =>
    rw [takeAll_cons] at h ⊢
    cases i with
    | zero =>
      have ht := take_of_none (Option.some.inj h)
      rw [ht]
      rfl
    | succ i => rw [List.eraseIdx_cons_succ, List.eraseIdx_cons_succ, takeAll_cons, ih h]

/-- Whatever the requests on one text: each is answered; the tokens handed out are those of the text in order, with
copies of the last one behind them; only a step is refused, and only behind a step that handed out the token for the
end; and without a refused request all other answers are the same. -/
theorem doors_agree (source : String) (ds : List Door) :
    let answers := (ofString source).takeAll ds
    answers.length = ds.length ∧
    (∃ last, (tokenize source).getLast? = some last ∧ last.kind = .endOfInput ∧
      ∃ n, answers.reduceOption <+: tokenize source ++ List.replicate n last) ∧
    (∀ i, answers[i]? = some none ↔ ds[i]? = some .step ∧ ∃ j < i, EndsSteps ds answers j) ∧
    ∀ i, answers[i]? = some none → (ofString source).takeAll (ds.eraseIdx i) = answers.eraseIdx i := by
  intro answers
  refine ⟨length_takeAll _ ds, ⟨endAt (Reader.ofString source).finish, ?_, rfl, ds.length, ?_⟩, fun i => ?_,
    fun i => takeAll_eraseIdx⟩
  · rw [tokenize, Reader.tokens_eq_body_append, List.getLast?_concat]
  · exact reduceOption_takeAll_prefix (ofString source) ds
  · have hstart : (ofString source).ended = false := rfl
    simpa only [hstart, Bool.false_eq_true, false_or] using takeAll_eq_none_iff (ofString source) ds i

-- the end is pulled first, stepped to once, and pulled again behind the refusal
example : ((ofString "x").takeAll [.pull, .pull, .step, .step, .pull]).map (·.map Token.kind) =
    [some .ident, some .endOfInput, some .endOfInput, none, some .endOfInput] := by
  decide

end MonkeyLang.Token.Stream
