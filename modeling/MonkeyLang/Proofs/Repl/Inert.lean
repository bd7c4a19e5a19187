/-
Lines that leave no trace in the interactive loop. Blank lines, commands and lines with parse errors are
answered, but the loop goes on from the machine that it had; and nothing behind a line that asks to quit is
read. So the loop says and does the same without them, and what is left is a session in which one line after
another is run on one machine (`inert_lines_are_removable`).
-/
import MonkeyLang.Proofs.Session.Output
import MonkeyLang.Repl
import Mathlib.Tactic.TFAE

namespace MonkeyLang

namespace Machine

variable {m : Machine} {source : String}

theorem runSource_mono {n k : Nat} (hk : n ≤ k) {x : Except (List ParseError) Value × Machine}
    (h : m.runSource n source = some x) : m.runSource k source = some x := by
  unfold runSource at h ⊢
  simp only at h ⊢
  split at h
  · next hempty =>
    rw [runProgram_eq, Option.map_map] at h
    obtain ⟨y, hy, hx⟩ := Option.map_eq_some_iff.1 h
    rw [if_pos hempty, runProgram_eq, Option.map_map, run_statements_mono hk hy, Option.map_some, hx]
  · next hempty => rw [if_neg hempty, h]

/-- The texts run one after another on one machine and all come to their end. What each of them shows is what
it prints and, on a line of its own, the text of its value. -/
inductive RunsEach : Machine → List String → List String → Machine → Prop where
  | nil (m : Machine) : RunsEach m [] [] m
  | cons {m m₁ m₂ : Machine} {source printed : String} {sources shown : List String} {v : Value}
    (hrun : m.RunsTo source (.ok v) m₁) (hprinted : m₁.output = m.output ++ printed)
    (hrest : RunsEach m₁ sources shown m₂) :
    RunsEach m (source :: sources) ((printed ++ m₁.store.text v ++ "\n") :: shown) m₂

end Machine

namespace Repl

variable {s : Store} {depth : Nat} {line : String} {lines : List String}

/-! ## Lines -/

def isQuit (line : String) : Bool := Text.trim line ∈ [":quit", ":q", ":exit"]

/-- A line that is blank, that starts with a colon or that cannot be read as a program. -/
def isInert (line : String) : Bool :=
  let text := Text.trim line
  text == "" || text.toList.head? == some ':' || !(parse text).errors.isEmpty

/-- The lines before the first that asks to quit, without those that are inert. -/
def remaining (lines : List String) : List String :=
  (lines.takeWhile fun line => !isQuit line).filter fun line => !isInert line

example : remaining ["let a = 1;", "  ", ":env", "let = 2", "a", " :q ", "a + 1"] = ["let a = 1;", "a"] := by
  decide +kernel

/-- What the answers to the lines that are not inert put on the output stream. -/
def remainingTexts (lines : List String) (answers : List Transcript) : List String :=
  ((lines.zip answers).filter fun p => !isInert p.1).map fun p => p.2.stdout

theorem isQuit_iff : isQuit line = true ↔
    Text.trim line = ":quit" ∨ Text.trim line = ":q" ∨ Text.trim line = ":exit" := by
  simp [isQuit]

theorem ofLine_of_isQuit (h : isQuit line = true) : Request.ofLine line = .quit := by
  rcases isQuit_iff.1 h with h | h | h <;> simp [Request.ofLine, h]

theorem isInert_of_isQuit (h : isQuit line = true) : isInert line = true := by
  rcases isQuit_iff.1 h with h | h | h <;> simp [isInert, h]

theorem ofLine_of_isInert_eq_false (h : isInert line = false) :
    Request.ofLine line = .source (Text.trim line) ∧ (parse (Text.trim line)).errors = [] := by
  simp only [isInert, Bool.or_eq_false_iff, beq_eq_false_iff_ne, Bool.not_eq_false', List.isEmpty_iff] at h
  obtain ⟨⟨hne, hcolon⟩, herrors⟩ := h
  refine ⟨?_, herrors⟩
  unfold Request.ofLine
  simp only
  split
  · next hnil => exact absurd (String.toList_eq_nil_iff.1 hnil) hne
  · next rest hcons => exact absurd (by rw [hcons]; rfl) hcolon
  · rfl

/-! ## Answers -/

theorem evaluate_of_errors {source : String} (h : (parse source).errors ≠ []) :
    ∃ t, evaluate depth ⟨s, ""⟩ source = some (t, ⟨s, ""⟩) := by
  have hempty : (parse source).errors.isEmpty = false := by simpa using h
  refine ⟨.ofReports sourceName (parse source).errors, ?_⟩
  simp [evaluate, Machine.runSource, hempty, Machine.takeOutput]

/-- An inert line is answered and leaves the machine as it was. -/
theorem respond_of_isInert (s : Store) (depth : Nat) (h : isInert line = true) (hquit : isQuit line = false) :
    Request.ofLine line ≠ .quit ∧ ∃ t, respond depth ⟨s, ""⟩ (Request.ofLine line) = some (t, ⟨s, ""⟩) := by
  unfold Request.ofLine
  simp only
  split
  · exact ⟨nofun, _, rfl⟩
  · split
    · next hmem => exact absurd (isQuit_iff.2 hmem) (by simp [hquit])
    · split
      · exact ⟨nofun, _, rfl⟩
      · split <;> exact ⟨nofun, _, rfl⟩
  · next hnil hcolon =>
    -- the line is run as a program, so that it is inert for its parse errors alone
    refine ⟨nofun, evaluate_of_errors fun herrors => ?_⟩
    have hcommand : Text.trim line = "" ∨ (Text.trim line).toList.head? = some ':' := by
      simpa [isInert, herrors] using h
    rcases hcommand with hempty | hhead
    · exact hnil (by rw [hempty]; rfl)
    · obtain ⟨rest, hrest⟩ := List.head?_eq_some_iff.1 hhead
      exact hcolon rest hrest

/-- A line that is not inert shows what it prints and the text of its value, and the next line goes on from the
machine that it leaves. -/
theorem evaluate_eq_some_iff {source : String} (h : (parse source).errors = []) {t : Transcript} {m : Machine} :
    evaluate depth ⟨s, ""⟩ source = some (t, m) ↔ ∃ v s' printed,
      (Machine.mk s "").runSource depth source = some (.ok v, ⟨s', printed⟩) ∧
      t = .ofText (printed ++ s'.text v ++ "\n") ∧ m = ⟨s', ""⟩ := by
  have hrun : ∀ r m', (Machine.mk s "").runSource depth source = some (r, m') → ∃ v, r = .ok v := by
    intro r m' hr
    simp only [Machine.runSource, h, List.isEmpty_nil, if_true, Option.map_eq_some_iff] at hr
    obtain ⟨⟨v, m₁⟩, -, heq⟩ := hr
    cases heq
    exact ⟨v, rfl⟩
  unfold evaluate
  generalize (Machine.mk s "").runSource depth source = x at hrun ⊢
  obtain _ | ⟨r, s', printed⟩ := x
  · simp
  · obtain ⟨v, rfl⟩ := hrun r _ rfl
    simp only [Option.bind_eq_bind, Option.bind_some, Machine.takeOutput, Option.pure_def, Option.some.injEq,
      Prod.mk.injEq]
    constructor
    · rintro ⟨rfl, rfl⟩
      exact ⟨v, s', printed, ⟨rfl, rfl⟩, rfl, rfl⟩
    · rintro ⟨v', s'', printed', ⟨heq, heq'⟩, rfl, rfl⟩
      cases heq
      cases heq'
      exact ⟨rfl, rfl⟩

theorem answers_of_isQuit (h : isQuit line = true) (m : Machine) :
    answers depth m (line :: lines) = some ([.ofText farewell], m) := by
  simp [answers, ofLine_of_isQuit h, respond]

theorem exists_answers_of_isInert (s : Store) (depth : Nat) (h : isInert line = true)
    (hquit : isQuit line = false) : ∃ t, ∀ lines,
    answers depth ⟨s, ""⟩ (line :: lines) = (answers depth ⟨s, ""⟩ lines).map fun x => (t :: x.1, x.2) := by
  obtain ⟨hne, t, ht⟩ := respond_of_isInert s depth h hquit
  refine ⟨t, fun lines => ?_⟩
  simp only [answers, ht, Option.bind_eq_bind, Option.bind_some, if_neg hne]
  rw [Option.map_eq_bind]
  rfl

/-- A line that is not inert is answered by a run of its text, and what it leaves is the machine for the lines
after it. -/
theorem answers_cons_eq_some_iff (h : isInert line = false) {ts : List Transcript} {m : Machine} :
    answers depth ⟨s, ""⟩ (line :: lines) = some (ts, m) ↔ ∃ v s' printed ts',
      (Machine.mk s "").runSource depth (Text.trim line) = some (.ok v, ⟨s', printed⟩) ∧
      answers depth ⟨s', ""⟩ lines = some (ts', m) ∧
      ts = .ofText (printed ++ s'.text v ++ "\n") :: ts' := by
  obtain ⟨hline, herrors⟩ := ofLine_of_isInert_eq_false h
  have hanswers : answers depth ⟨s, ""⟩ (line :: lines) =
      (evaluate depth ⟨s, ""⟩ (Text.trim line)).bind fun x =>
        (answers depth x.2 lines).map fun y => (x.1 :: y.1, y.2) := by
    simp only [answers, hline, respond, Option.bind_eq_bind, reduceCtorEq, if_false, Option.map_eq_bind]
    rfl
  rw [hanswers, Option.bind_eq_some_iff]
  constructor
  · rintro ⟨⟨t, m₁⟩, heval, hrest⟩
    obtain ⟨v, s', printed, hrun, rfl, rfl⟩ := (evaluate_eq_some_iff herrors).1 heval
    obtain ⟨⟨ts', m'⟩, hts', heq⟩ := Option.map_eq_some_iff.1 hrest
    cases heq
    exact ⟨v, s', printed, ts', hrun, hts', rfl⟩
  · rintro ⟨v, s', printed, ts', hrun, hrest, rfl⟩
    refine ⟨_, (evaluate_eq_some_iff herrors).2 ⟨v, s', printed, hrun, rfl, rfl⟩, ?_⟩
    rw [hrest, Option.map_some]

/-! ## Without the inert lines -/

theorem remaining_cons_of_isQuit (h : isQuit line = true) : remaining (line :: lines) = [] := by
  simp [remaining, h]

theorem remaining_cons_of_isInert (h : isInert line = true) (hquit : isQuit line = false) :
    remaining (line :: lines) = remaining lines := by
  simp [remaining, h, hquit]

theorem remaining_cons_of_isInert_eq_false (h : isInert line = false) :
    remaining (line :: lines) = line :: remaining lines := by
  have hquit : isQuit line = false := by
    by_contra hne
    rw [isInert_of_isQuit (by simpa using hne)] at h
    exact nomatch h
  simp [remaining, h, hquit]

theorem isInert_of_mem_remaining (h : line ∈ remaining lines) : isInert line = false := by
  simpa using (List.mem_filter.1 h).2

/-- At every depth the loop says and does the same on the remaining lines alone. -/
theorem answers_remaining (lines : List String) (s : Store) (shown : List String) (m : Machine) :
    (∃ ts, answers depth ⟨s, ""⟩ lines = some (ts, m) ∧ remainingTexts lines ts = shown) ↔
      ∃ ts, answers depth ⟨s, ""⟩ (remaining lines) = some (ts, m) ∧ ts.map Transcript.stdout = shown := by
  -- the store is general: a line that is not inert leaves another one for the lines after it
  induction lines generalizing s shown with
  | nil => simp [remaining, remainingTexts, answers]
  | cons line lines ih =>
    rcases hquit : isQuit line with _ | _
    · rcases hinert : isInert line with _ | _
      · rw [remaining_cons_of_isInert_eq_false hinert]
        simp only [answers_cons_eq_some_iff hinert]
        constructor
        · rintro ⟨_, ⟨v, s', printed, ts', hrun, hrest, rfl⟩, rfl⟩
          obtain ⟨ts, hts, heq⟩ := (ih s' _).1 ⟨ts', hrest, rfl⟩
          refine ⟨_, ⟨v, s', printed, ts, hrun, hts, rfl⟩, ?_⟩
          simp [remainingTexts, hinert, heq]
        · rintro ⟨_, ⟨v, s', printed, ts', hrun, hrest, rfl⟩, rfl⟩
          obtain ⟨ts, hts, heq⟩ := (ih s' _).2 ⟨ts', hrest, rfl⟩
          refine ⟨_, ⟨v, s', printed, ts, hrun, hts, rfl⟩, ?_⟩
          simpa [remainingTexts, hinert] using heq
      · obtain ⟨t, ht⟩ := exists_answers_of_isInert s depth hinert hquit
        rw [remaining_cons_of_isInert hinert hquit, ← ih, ht]
        have htexts : ∀ ts, remainingTexts (line :: lines) (t :: ts) = remainingTexts lines ts := by
          intro ts
          simp [remainingTexts, hinert]
        constructor
        · rintro ⟨ts, hts, hshown⟩
          obtain ⟨⟨ts', m'⟩, hts', heq⟩ := Option.map_eq_some_iff.1 hts
          cases heq
          exact ⟨ts', hts', htexts ts' ▸ hshown⟩
        · rintro ⟨ts, hts, hshown⟩
          exact ⟨t :: ts, by rw [hts, Option.map_some], by rw [htexts, hshown]⟩
    · rw [remaining_cons_of_isQuit hquit, answers_of_isQuit hquit]
      have htexts : remainingTexts (line :: lines) [.ofText farewell] = [] := by
        simp [remainingTexts, isInert_of_isQuit hquit]
      simp [answers, htexts]

/-! ## As a session -/

theorem answers_mono {n k : Nat} (hk : n ≤ k) (hlive : ∀ line ∈ lines, isInert line = false)
    {x : List Transcript × Machine} (h : answers n ⟨s, ""⟩ lines = some x) : answers k ⟨s, ""⟩ lines = some x := by
  induction lines generalizing s x with
  | nil => exact h
  | cons line lines ih =>
    have hline := hlive line List.mem_cons_self
    obtain ⟨v, s', printed, ts, hrun, hrest, heq⟩ := (answers_cons_eq_some_iff hline).1 h
    refine (answers_cons_eq_some_iff hline).2 ⟨v, s', printed, ts, Machine.runSource_mono hk hrun, ?_, heq⟩
    exact ih (fun l hl => hlive l (List.mem_cons_of_mem _ hl)) hrest

/-- Lines that are not inert are answered by what a session shows that runs their trimmed texts. The session
may have printed something before, and the loop drops what it has printed after each line. -/
theorem answers_eq_runsEach (hlive : ∀ line ∈ lines, isInert line = false) (s : Store) (output : String)
    (shown : List String) (t : Store) :
    (∃ depth ts m, answers depth ⟨s, ""⟩ lines = some (ts, m) ∧ ts.map Transcript.stdout = shown ∧ m.store = t) ↔
      ∃ m, (Machine.mk s output).RunsEach (lines.map Text.trim) shown m ∧ m.store = t := by
  induction lines generalizing s output shown with
  | nil =>
    constructor
    · rintro ⟨_, _, _, h, rfl, rfl⟩
      cases h
      exact ⟨_, .nil _, rfl⟩
    · rintro ⟨_, h, rfl⟩
      cases h
      exact ⟨0, [], ⟨s, ""⟩, rfl, rfl, rfl⟩
  | cons line lines ih =>
    have hline := hlive line List.mem_cons_self
    have hlines : ∀ l ∈ lines, isInert l = false := fun l hl => hlive l (List.mem_cons_of_mem _ hl)
    constructor
    · rintro ⟨depth, ts, m, h, rfl, rfl⟩
      obtain ⟨v, s', printed, ts, hrun, hrest, rfl⟩ := (answers_cons_eq_some_iff hline).1 h
      obtain ⟨m', hm', heq⟩ := (ih hlines s' (output ++ printed) _).1 ⟨depth, ts, m, hrest, rfl, rfl⟩
      have hrun' : (Machine.mk s output).RunsTo (Text.trim line) (.ok v) ⟨s', output ++ printed⟩ :=
        ⟨depth, by rw [Machine.runSource_eq_map, hrun]; rfl⟩
      have hprinted : (Machine.mk s' (output ++ printed)).output = (Machine.mk s output).output ++ printed := rfl
      have hcons := Machine.RunsEach.cons hrun' hprinted hm'
      exact ⟨m', hcons, heq⟩
    · rintro ⟨m', h, rfl⟩
      cases h with
      | @cons _ m₁ _ _ printed _ shown v hrun hprinted hrest =>
        obtain ⟨n, hrun⟩ := hrun
        obtain ⟨s', out⟩ := m₁
        obtain ⟨k, ts, m, hts, rfl, hm⟩ := (ih hlines s' out shown).2 ⟨m', hrest, rfl⟩
        rw [Machine.runSource_eq_map] at hrun
        obtain ⟨⟨r, s₁, out₁⟩, hfresh, heq⟩ := Option.map_eq_some_iff.1 hrun
        simp only [Prod.map, id, Machine.printedAfter, Prod.mk.injEq, Machine.mk.injEq] at heq
        obtain ⟨rfl, rfl, rfl⟩ := heq
        obtain rfl : out₁ = printed := String.append_right_inj output |>.1 hprinted
        -- the first line ended at one depth and the others at another; both end at the greater one
        refine ⟨max n k, _, m, (answers_cons_eq_some_iff hline).2 ⟨v, s₁, out₁, ts, ?_, ?_, rfl⟩, rfl, hm⟩
        · exact Machine.runSource_mono (le_max_left n k) hfresh
        · exact answers_mono (le_max_right n k) hlines hts

/-- The loop comes to the end of the lines on a fresh machine, with these answers and this machine. -/
def AnswersTo (lines : List String) (ts : List Transcript) (m : Machine) : Prop :=
  ∃ depth, answers depth .initial lines = some (ts, m)

/-- What the loop shows for the lines that are not inert, and the store with the bindings that it leaves, are
those of the loop on these lines alone and those of the session that runs their trimmed texts; and if one of
the three comes to its end, so do the others. -/
theorem inert_lines_are_removable (lines shown : List String) (s : Store) : List.TFAE [
    ∃ ts m, AnswersTo lines ts m ∧ remainingTexts lines ts = shown ∧ m.store = s,
    ∃ ts m, AnswersTo (remaining lines) ts m ∧ ts.map Transcript.stdout = shown ∧ m.store = s,
    ∃ m, Machine.initial.RunsEach ((remaining lines).map Text.trim) shown m ∧ m.store = s] := by
  tfae_have 1 → 2 := by
    rintro ⟨ts, m, ⟨depth, hts⟩, hshown, hs⟩
    obtain ⟨ts', hts', hshown'⟩ := (answers_remaining lines Store.initial shown m).1 ⟨ts, hts, hshown⟩
    exact ⟨ts', m, ⟨depth, hts'⟩, hshown', hs⟩
  tfae_have 2 → 1 := by
    rintro ⟨ts, m, ⟨depth, hts⟩, hshown, hs⟩
    obtain ⟨ts', hts', hshown'⟩ := (answers_remaining lines Store.initial shown m).2 ⟨ts, hts, hshown⟩
    exact ⟨ts', m, ⟨depth, hts'⟩, hshown', hs⟩
  tfae_have 2 ↔ 3 := by
    have hlive : ∀ line ∈ remaining lines, isInert line = false := fun _ => isInert_of_mem_remaining
    have hsession := answers_eq_runsEach hlive Store.initial "" shown s
    constructor
    · rintro ⟨ts, m, ⟨depth, hts⟩, hshown, hs⟩
      exact hsession.1 ⟨depth, ts, m, hts, hshown, hs⟩
    · intro h
      obtain ⟨depth, ts, m, hts, hshown, hs⟩ := hsession.2 h
      exact ⟨ts, m, ⟨depth, hts⟩, hshown, hs⟩
  tfae_finish

end Repl

end MonkeyLang
