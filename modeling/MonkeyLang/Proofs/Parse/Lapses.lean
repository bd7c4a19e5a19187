/-
Errors and what became of them. Every rule of the grammar that gives up has recorded an error, and that failure is
absorbed at one of two places: a loop over statements leaves the statement out, or a return stays without its value.
Such a `Lapse` may lie deep inside of an expression that is itself lost later on. The recipe of a rule says where
failures are absorbed, and so which lapses there are in each run of it (`Recipe.lapses`); they come up to the errors
(`Recipe.balanced`). So a text has as many errors as lapses (`balance_parse`), and the statements that were left out
and the returns that lack a value are never more than the errors (`failures_are_recorded`).
-/
import MonkeyLang.Proofs.Parse.Acceptance
import MonkeyLang.Proofs.Parse.Recipe
import MonkeyLang.Proofs.Parse.Triple

namespace MonkeyLang

/-- A failure after which reading goes on. -/
inductive Lapse where
  /-- A statement is left out of its program or its block. -/
  | statement
  /-- A return goes without its value. -/
  | value
deriving DecidableEq, Repr

/-- No token stands for a return without a value. -/
theorem Token.count_bareReturn_leaves (t : Token) : t.leaves.count .bareReturn = 0 :=
  List.count_eq_zero.2 fun h => from_of_mem_leaves (List.mem_singleton_self t) h [] rfl

namespace Parser

/-- The lapses in a run of a rule from left to right, by the cursor that it starts at. Nothing comes after a rule that
gives up, but what lapsed in it stays lapsed. -/
def Recipe.lapses {x : Place} {had : List Leaf} {α : Type} {p : Parser α} {N : α → List Leaf} {y : Stage} :
    Recipe x had p N y → Cursor → List Lapse
  | .pure _, _ | .noOperand, _ | .tooLarge _ _, _ | .skip, _ => []
  | .keep r, c | .forget _ r, c | .weaken _ r, c | .unsee r, c | .begun _ r, c => r.lapses c
  | .current _ r, c | .peek _ r, c | .nextIs r, c => r.lapses c
  | .see r, c | .look _ r, c => (r c.current).lapses c
  | .foresee r, c => (r c.peek).lapses c
  | .unread r, c => (r c.unread).lapses c
  | .advance r, c | .enter _ r, c => r.lapses c.advance
  | .expect (k := k) r, c => if h : c.peek.kind = k then (r c.peek h).lapses c.advance else []
  | .seq (p := p) r s, c => r.lapses c ++ (p.run c).1.elim [] fun a => (s a).lapses (p.run c).2
  | .value (p := p) r s s', c =>
    r.lapses c ++ (p.run c).1.elim (.value :: s'.lapses (p.run c).2) fun a => (s a).lapses (p.run c).2
  | .turn (p := p) r s s', c =>
    r.lapses c ++
      (p.run c).1.elim (.statement :: s'.lapses (p.run c).2.advance) fun a => (s a).lapses (p.run c).2.advance

namespace Recipe

section

variable {x : Place} {had : List Leaf} {α β : Type} {p q : Parser α} {f : α → Parser β} {N : α → List Leaf}
  {M : β → List Leaf} {y z : Stage}

theorem lapses_ite {b : Prop} [inst : Decidable b] (r : b → Recipe x had p N y) (s : ¬ b → Recipe x had q N y)
    (c : Cursor) : (ite r s).lapses c = if h : b then (r h).lapses c else (s h).lapses c := by
  cases inst <;> rfl

theorem lapses_bind (r : Recipe x [] p N y) {s : ∀ a, Recipe (.plain y) (N a ++ had) (f a) M z}
    (hs : ∀ a c, (s a).lapses c = []) (c : Cursor) : (r.bind s).lapses c = r.lapses c := by
  show r.lapses c ++ (p.run c).1.elim [] (fun a => (s a).lapses (p.run c).2) = r.lapses c
  cases (p.run c).1 <;> simp [hs]

end

/-- What lapses in a turn of a loop over statements: what does in the statement, the statement itself if it cannot be
read, and then what does in the turns behind it. -/
theorem lapses_statements {expr : Precedence → Parser Expr} (r : ∀ p, Recipe .start [] (expr p) Expr.leaves .inside)
    {stops : Token.Kind → Bool} {c : Cursor} (hc : stops c.current.kind = false) (m : Nat) :
    (statements r stops (m + 1)).lapses c =
      (statement r).lapses c ++ (if ((Parser.statement expr).run c).1 = none then [.statement] else []) ++
        (statements r stops m).lapses ((Parser.statement expr).run c).2.advance := by
  rw [statements]
  show (ite _ _).lapses c = _
  rw [lapses_ite, dif_neg (Bool.not_eq_true _ ▸ hc), List.append_assoc]
  show (statement r).lapses c ++ ((Parser.statement expr).run c).1.elim _ _ = _
  cases ((Parser.statement expr).run c).1 with
  | none =>
    rw [Option.elim_none, lapses_bind _ (fun _ _ => rfl)]
    simp
  | some s =>
    rw [Option.elim_some, lapses_bind _ (fun _ _ => rfl)]
    simp

end Recipe

/-! ## Balance -/

section Balance

variable {α β : Type} {had had' : List Leaf} {N : α → List Leaf} {M : β → List Leaf} {ls ls' : List Lapse}
  {c c' d : Cursor}

/-- Each new error of a run that starts at `c` goes with a lapse, or with the failure that the run itself ends in; and
returns lack their value because of a lapse, but for those in what was at hand before. -/
def Balanced (had : List Leaf) (ls : List Lapse) (N : α → List Leaf) (c : Cursor) : Option α × Cursor → Prop :=
  Ends (fun a c' => c'.errors.length = c.errors.length + ls.length ∧
      (N a).count .bareReturn ≤ had.count .bareReturn + ls.count .value)
    (fun c' => c'.errors.length = c.errors.length + ls.length + 1)

theorem Balanced.forget {x : Option α × Cursor} (h : Balanced had' ls N c x)
    (hbare : had'.count .bareReturn ≤ had.count .bareReturn) : Balanced had ls N c x :=
  Ends.imp h (fun _ _ hd => ⟨hd.1, hd.2.trans (Nat.add_le_add_right hbare _)⟩) fun _ hd => hd

/-- The lapses of a run come behind those from before it. -/
theorem Balanced.after {x : Option α × Cursor} (h : Balanced had' ls' N c' x)
    (herrors : c'.errors.length = c.errors.length + ls.length)
    (hbare : had'.count .bareReturn ≤ had.count .bareReturn + ls.count .value) : Balanced had (ls ++ ls') N c x := by
  refine Ends.imp h (fun a d hd => ?_) fun d hd => ?_
  · rw [List.length_append, List.count_append]
    exact ⟨by omega, by omega⟩
  · rw [List.length_append]
    omega

/-- A failure is absorbed, and that is a lapse. -/
theorem Balanced.absorb {x : Option β × Cursor} {k : Lapse} (h : Balanced [] ls N c (none, d))
    (h' : Balanced had' ls' M c' x) (herrors : c'.errors = d.errors)
    (hbare : had'.count .bareReturn ≤ had.count .bareReturn + [k].count .value) :
    Balanced had (ls ++ k :: ls') M c x := by
  rw [List.append_cons]
  refine h'.after ?_ ?_
  · rw [herrors, List.length_append]
    exact h
  · rw [List.count_append]
    omega

theorem Balanced.resume {x : Option β × Cursor} {a : α} (h : Balanced [] ls N c (some a, d))
    (h' : Balanced (N a ++ had) ls' M c' x) (herrors : c'.errors = d.errors) : Balanced had (ls ++ ls') M c x := by
  obtain ⟨hlength, hbare⟩ := h
  refine h'.after (herrors ▸ hlength) ?_
  rw [List.count_nil] at hbare
  rw [List.count_append]
  omega

end Balance

theorem Recipe.balanced {x : Place} {had : List Leaf} {α : Type} {p : Parser α} {N : α → List Leaf} {y : Stage}
    (r : Recipe x had p N y) {c : Cursor} (hc : x.Fits c) : Balanced had (r.lapses c) N c (p.run c) := by
  induction r generalizing c with
  | pure h => exact ⟨rfl, h.count_le _⟩
  | @seq _ _ p f _ M _ _ _ had r s ih ih' =>
    have h := ih hc
    show Balanced had (r.lapses c ++ (p.run c).1.elim [] fun a => (s a).lapses (p.run c).2) M c ((p >>= f).run c)
    rw [run_bind]
    generalize p.run c = x at h ⊢
    obtain ⟨_ | a, c'⟩ := x
    · exact (List.append_nil (r.lapses c)).symm ▸ h
    · exact (ih' a trivial).after h.1 h.2
  | keep r ih =>
    refine Ends.imp (ih hc) (fun a c' h => ⟨h.1, ?_⟩) fun c' h => h
    rw [List.count_append, Nat.add_comm]
    exact Nat.add_le_add_left (h.2.trans_eq (Nat.zero_add _)) _
  | forget h r ih => exact (ih hc).forget (h.count_le _)
  | weaken h r ih => exact ih trivial
  | see r ih => exact ih c.current rfl
  | foresee r ih => exact ih c.peek rfl
  | unsee r ih => exact ih trivial
  | begun h r ih => exact ih trivial
  | @current _ _ _ _ _ t h r ih =>
    obtain rfl : c.current = t := hc
    refine (ih rfl).forget (Nat.le_of_eq ?_)
    rw [List.count_append, Token.count_bareReturn_leaves, Nat.zero_add]
  | @peek _ _ _ _ _ t h r ih =>
    obtain rfl : c.peek = t := hc
    exact ih rfl
  | @nextIs _ k q _ _ _ t r ih =>
    obtain rfl : c.peek = t := hc
    exact ih rfl
  | unread r ih => exact ih c.unread hc
  | @advance _ _ _ _ _ t r ih =>
    obtain rfl : c.peek = t := hc
    exact ih rfl
  | @expect _ k q N _ had r ih =>
    show Balanced had (if h : c.peek.kind = k then (r c.peek h).lapses c.advance else []) N c
      ((Parser.expect k >>= fun _ => q).run c)
    by_cases hk : c.peek.kind = k
    · rw [dif_pos hk, run_bind_some (show (Parser.expect k).run c = (some (), c.advance) from if_pos hk)]
      exact ih c.peek hk rfl
    · rw [dif_neg hk, run_bind_none (show (Parser.expect k).run c = (none, c.report _ _) from if_neg hk)]
      exact List.length_append
  | noOperand => exact List.length_append
  | tooLarge hk hn => exact List.length_append
  | @skip had =>
    show Balanced had [] (fun _ => had) c
      (Parser.run (if (c.peek.kind == .semicolon) = true then Parser.advance else Pure.pure ()) c)
    split
    · exact ⟨rfl, Nat.le_refl _⟩
    · exact ⟨rfl, Nat.le_refl _⟩
  | @value _ _ p q _ M _ _ had r s s' ih ih₁ ih₂ =>
    have h := ih hc
    show Balanced had
      (r.lapses c ++ (p.run c).1.elim (.value :: s'.lapses (p.run c).2) fun a => (s a).lapses (p.run c).2)
      M c ((q (p.run c).1).run (p.run c).2)
    generalize p.run c = x at h ⊢
    obtain ⟨_ | a, c'⟩ := x
    · exact h.absorb (ih₂ trivial) rfl (Nat.le_of_eq List.count_cons_self)
    · exact h.resume (ih₁ a trivial) rfl
  | enter hk r ih => exact ih trivial
  | look h r ih => exact ih c.current hc
  | @turn _ _ p q _ M _ had r s s' ih ih₁ ih₂ =>
    have h := ih (c := c) trivial
    show Balanced had
      (r.lapses c ++
        (p.run c).1.elim (.statement :: s'.lapses (p.run c).2.advance) fun a => (s a).lapses (p.run c).2.advance)
      M c ((q (p.run c).1).run (p.run c).2.advance)
    generalize p.run c = x at h ⊢
    obtain ⟨_ | a, c'⟩ := x
    · exact h.absorb (ih₂ trivial) rfl (Nat.le_refl _)
    · exact h.resume (ih₁ a trivial) rfl

/-! ## Rules -/

/-- The rules of the grammar that read their expressions with `e`. -/
inductive Rule (e : Precedence → Parser Expr) : {α : Type} → Parser α → Prop where
  | wholeProgram : Rule e wholeProgram
  | statement : Rule e (statement e)
  | bindStatement : Rule e (bindStatement e)
  | returnStatement : Rule e (returnStatement e)
  | expressionStatement : Rule e (expressionStatement e)
  | statements (stops : Token.Kind → Bool) (m : Nat) : Rule e (statements e stops m)
  | block : Rule e (block e)
  | expr (p : Precedence) : Rule e (e p)
  | nextExpr : Rule e (nextExpr e)
  | operand : Rule e (operand e)
  | integer : Rule e integer
  | unary (op : UnaryOp) : Rule e (unary e op)
  | grouped : Rule e (grouped e)
  | conditional : Rule e (conditional e)
  | function : Rule e (function e)
  | param : Rule e param
  | items {α : Type} {item : Parser α} (close : Token.Kind) : Rule e item → Rule e (items item close)
  | moreItems {α : Type} {item : Parser α} (m : Nat) : Rule e item → Rule e (moreItems item m)
  | array : Rule e (array e)
  | pair : Rule e (pair e)
  | pairs (m : Nat) : Rule e (pairs e m)
  | hash : Rule e (hash e)
  | continued (left : Expr) (k : Continuation) : Rule e (continued e left k)
  | climb (p : Precedence) (m : Nat) (left : Expr) : Rule e (climb e p m left)

theorem Rule.lawful {α : Type} {p : Parser α} {e : Precedence → Parser Expr} [∀ p, Lawful (e p)] (h : Rule e p) :
    Lawful p := by
  induction h with
  | items close _ ih => exact lawful_items _ close
  | moreItems m _ ih => exact lawful_moreItems _ m
  | _ => infer_instance

/-- Errors are only ever added, and a rule that yields nothing has added one. -/
theorem Lawful.exists_new_errors {α : Type} {p : Parser α} [Lawful p] (c : Cursor) :
    ∃ new, (p.run c).2.errors = c.errors ++ new ∧ ((p.run c).1 = none → new ≠ []) := by
  obtain ⟨new, hnew⟩ := Lawful.errors_grow (p := p) c
  refine ⟨new, hnew.symm, fun hnone hnil => Lawful.error_of_none c hnone ?_⟩
  rw [← hnew, hnil, List.append_nil]

end Parser

/-! ## Whole texts -/

/-- The failures after which reading a text went on, those in parts that were lost later on included. -/
def lapses (source : String) : List Lapse := Parser.Recipe.wholeProgram.lapses (.ofSource source)

theorem balance_parse (source : String) : (parse source).errors.length = (lapses source).length ∧
    (parse source).program.leaves.count .bareReturn ≤ (lapses source).count .value := by
  obtain ⟨c, hrun, herrors, -⟩ := Parser.exists_run_wholeProgram source
  have h := Parser.Recipe.wholeProgram.balanced (c := .ofSource source) trivial
  rw [hrun] at h
  obtain ⟨hlength, hbare⟩ := h
  rw [herrors] at hlength
  rw [← Stmt.allLeaves_eq] at hbare
  exact ⟨hlength.trans (Nat.zero_add _), hbare.trans_eq (Nat.zero_add _)⟩

theorem Lapse.count_add_count (ls : List Lapse) : ls.count .statement + ls.count .value = ls.length := by
  induction ls with
  | nil => rfl
  | cons l ls ih =>
    cases l with
    | statement => simp [← ih, Nat.add_right_comm]
    | value => simp [← ih, Nat.add_assoc]

open MonkeyLang.Parser in
/-- No rule fails in silence: wherever it starts, the errors from before stay in front, and if it yields nothing it
has added an error to them. So in every text the statements that were left out, of the program or of a block anywhere
in it, and the returns of the program that lack a value are together no more than the errors. -/
theorem failures_are_recorded :
    (∀ {α : Type} {p : Parser α} {n : Nat}, Rule (expr n) p → ∀ c, ∃ new,
      (p.run c).2.errors = c.errors ++ new ∧ ((p.run c).1 = none → new ≠ [])) ∧
      ∀ source, (lapses source).count .statement + (parse source).program.leaves.count .bareReturn ≤
        (parse source).errors.length := by
  constructor
  · intro α p n hp c
    have := hp.lawful
    exact Lawful.exists_new_errors c
  · intro source
    obtain ⟨hlength, hbare⟩ := balance_parse source
    have hcount := Lapse.count_add_count (lapses source)
    omega

open MonkeyLang.Parser in
/-- A pair without its value; and a function that leaves out a binding and lacks the value of a return, lost as a whole
because nothing follows the sign behind it. -/
theorem failures_are_recorded_lost_function :
    ((hash (expr 3)).run (.ofSource "\x7b1:")).1 = none ∧
      (∃ new, ((hash (expr 3)).run (.ofSource "\x7b1:")).2.errors = [] ++ new ∧
        (((hash (expr 3)).run (.ofSource "\x7b1:")).1 = none → new ≠ [])) ∧
      lapses "return ; fn() \x7b return ; let 7 \x7d +" = [.value, .value, .statement, .statement] ∧
      (lapses "return ; fn() \x7b return ; let 7 \x7d +").count .statement +
        (parse "return ; fn() \x7b return ; let 7 \x7d +").program.leaves.count .bareReturn ≤
          (parse "return ; fn() \x7b return ; let 7 \x7d +").errors.length :=
  ⟨by decide +kernel, failures_are_recorded.1 .hash _, by decide +kernel, failures_are_recorded.2 _⟩

end MonkeyLang
