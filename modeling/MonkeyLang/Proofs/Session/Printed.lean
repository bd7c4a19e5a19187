/-
Printed data evaluates back to itself. The text of data is read as the expression that spells it out; to
evaluate that expression makes new arrays and hashes and leaves all others alone (`Shows.evaluates`); and
the new value is spelled out by the same expression as the old one.
-/
import MonkeyLang.Proofs.Session.Steps
import MonkeyLang.Proofs.Value.Data

namespace MonkeyLang

/-! ## Hashes -/

theorem Hash.insert_of_not_mem {h : Hash} {k : HashKey} (hk : k ∉ h.entries.map Prod.fst) (p : HashPair) :
    h.insert k p = ⟨h.entries ++ [(k, p)]⟩ := by
  obtain ⟨es⟩ := h
  simp only [Hash.insert]
  fun_induction Hash.insertEntry k p es with
  | case1 => rfl
  | case2 q rest => simp at hk
  | case3 l q rest hne ih =>
    simp only [List.map_cons, List.mem_cons, not_or] at hk
    simpa using ih hk.2

namespace Store

theorem elements_newArray (s : Store) (vs : Array Value) :
    (s.newArray vs).2.elements (s.newArray vs).1 = vs := by
  simp [elements, newArray]

theorem hash_newHash (s : Store) (h : Hash) : (s.newHash h).2.hash (s.newHash h).1 = h := by
  simp [Store.hash, newHash]

end Store

/-! ## Evaluation -/

open Store (KeySpelledBy ShowsEntry)

variable {depth : Nat} {scope : FrameRef}

theorem run_of_spelledBy {v : Value} {e : Expr} (h : v.SpelledBy e) (hd : 1 < depth) (m : Machine) :
    (Eval.expr depth e scope).run m = some (.ok v, m) := by
  obtain ⟨k, rfl⟩ : ∃ k, depth = k + 2 := ⟨depth - 2, by omega⟩
  cases h <;> rfl

/-- In every store, the expression evaluates to a value that it spells out, and all else stays. -/
def Evaluates (depth : Nat) (scope : FrameRef) (e : Expr) : Prop :=
  ∀ (t : Store) (output : String), ∃ (w : Value) (t' : Store),
    (Eval.expr depth e scope).run ⟨t, output⟩ = some (.ok w, ⟨t', output⟩) ∧ t.Keeps t' ∧ t'.Shows w e

theorem run_all_of_evaluates {es : List Expr} (h : ∀ e ∈ es, Evaluates depth scope e) (t : Store) (output : String) :
    ∃ (ws : List Value) (t' : Store), (Eval.all (Eval.expr depth) scope es).run ⟨t, output⟩ =
      some (.ok ws, ⟨t', output⟩) ∧ t.Keeps t' ∧ List.Forall₂ t'.Shows ws es := by
  induction es generalizing t with
  | nil => exact ⟨[], t, rfl, .refl t, .nil⟩
  | cons e es ih =>
    obtain ⟨w, t₁, hw, hk₁, hs₁⟩ := h e (by simp) t output
    obtain ⟨ws, t₂, hws, hk₂, hs₂⟩ := ih (fun d hd => h d (List.mem_cons_of_mem e hd)) t₁
    refine ⟨w :: ws, t₂, ?_, hk₁.trans hk₂, .cons (hs₁.mono hk₂) hs₂⟩
    rw [Eval.all, Eval.run_bind_ok hw, Eval.run_bind_ok hws]
    rfl

theorem Store.ShowsEntry.mono {s t : Store} (hk : s.Keeps t) {d : HashKey × HashPair} {q : Expr × Expr}
    (h : s.ShowsEntry d q) : t.ShowsEntry d q := ⟨h.1, h.2.mono hk⟩

/-- The pairs of a hash literal with different keys are put in one behind the other. -/
theorem run_pairs_of_evaluates {ds : List (HashKey × HashPair)} {ps : List (Expr × Expr)}
    (hk : List.Forall₂ KeySpelledBy ds ps) (hv : ∀ q ∈ ps, Evaluates depth scope q.2) (hd : 1 < depth)
    {h : Hash} (hn : (h.entries.map Prod.fst ++ ds.map Prod.fst).Nodup) (t : Store) (output : String) :
    ∃ (fs : List (HashKey × HashPair)) (t' : Store), (Eval.pairs (Eval.expr depth) scope h ps).run ⟨t, output⟩ =
      some (.ok ⟨h.entries ++ fs⟩, ⟨t', output⟩) ∧ t.Keeps t' ∧ fs.map Prod.fst = ds.map Prod.fst ∧
      List.Forall₂ t'.ShowsEntry fs ps := by
  induction hk generalizing h t with
  | nil => exact ⟨[], t, by simp [Eval.pairs], .refl t, rfl, .nil⟩
  | @cons d q ds ps hdq _ ih =>
    obtain ⟨w, t₁, hw, hk₁, hs₁⟩ := hv q (by simp) t output
    have hnot : d.1 ∉ h.entries.map Prod.fst := by
      rw [List.map_cons] at hn
      exact fun hm => (List.nodup_append.1 hn).2.2 _ hm _ (by simp) rfl
    have hn' : ((h.insert d.1 ⟨d.2.key, w⟩).entries.map Prod.fst ++ ds.map Prod.fst).Nodup := by
      rw [Hash.insert_of_not_mem hnot]
      simpa using hn
    obtain ⟨fs, t₂, hfs, hk₂, hfst, hs₂⟩ := ih (fun p hp => hv p (List.mem_cons_of_mem q hp)) hn' t₁
    refine ⟨(d.1, ⟨d.2.key, w⟩) :: fs, t₂, ?_, hk₁.trans hk₂, by rw [List.map_cons, List.map_cons, hfst],
      .cons ⟨hdq, hs₁.mono hk₂⟩ hs₂⟩
    have hkey : (Eval.keyOf d.2.key).run ⟨t, output⟩ = some (.ok d.1, ⟨t, output⟩) := by
      rw [Eval.keyOf, hdq.2]
      rfl
    obtain ⟨k, x⟩ := q
    rw [Eval.pairs, Eval.run_bind_ok (run_of_spelledBy hdq.1 hd _), Eval.run_bind_ok hkey, Eval.run_bind_ok hw, hfs,
      Hash.insert_of_not_mem hnot]
    simp

theorem Store.Shows.evaluates {s : Store} {v : Value} {e : Expr} (h : s.Shows v e) (hd : sizeOf e < depth) :
    Evaluates depth scope e := by
  induction h generalizing depth with
  | @scalar v e h =>
    intro t output
    have hpos : 0 < sizeOf e := by cases e <;> simp +arith
    exact ⟨v, t, run_of_spelledBy h (by omega) _, .refl t, .scalar h⟩
  | @array r es hr hlen h ih =>
    intro t output
    obtain ⟨depth, rfl⟩ : ∃ k, depth = k + 1 := ⟨depth - 1, by omega⟩
    rw [Expr.array.sizeOf_spec] at hd
    have hes : ∀ e ∈ es, Evaluates depth scope e := by
      refine forall_mem_of_zip hlen fun p hp => ih p hp ?_
      have hlt := List.sizeOf_lt_of_mem (List.of_mem_zip hp).2
      omega
    obtain ⟨ws, t', hws, hk, hshow⟩ := run_all_of_evaluates hes t output
    have hk' := keeps_newArray t' ws.toArray
    refine ⟨.array (t'.newArray ws.toArray).1, (t'.newArray ws.toArray).2, ?_, hk.trans hk', ?_⟩
    · rw [Eval.expr, Eval.level, Eval.run_bind_ok hws]
      rfl
    · refine shows_array (by simp [newArray]) ?_
      rw [elements_newArray]
      exact hshow.imp fun _ _ hx => hx.mono hk'
  | @hash r ps hr hn hkeys hv ih =>
    intro t output
    obtain ⟨depth, rfl⟩ : ∃ k, depth = k + 1 := ⟨depth - 1, by omega⟩
    rw [Expr.hash.sizeOf_spec] at hd
    have hvs : ∀ q ∈ ps, Evaluates depth scope q.2 := by
      refine forall_mem_of_zip hkeys.length_eq fun p hp => ih p hp ?_
      have hlt := List.sizeOf_lt_of_mem (List.of_mem_zip hp).2
      have hsnd : sizeOf p.2 = 1 + sizeOf p.2.1 + sizeOf p.2.2 := rfl
      omega
    have hd' : 1 < depth := by
      have hpos : 0 < sizeOf ps := by
        cases ps with
        | nil => decide
        | cons q ps => rw [List.cons.sizeOf_spec]; omega
      omega
    obtain ⟨fs, t', hfs, hk, hfst, hshow⟩ := run_pairs_of_evaluates hkeys hvs hd' (h := .empty) hn t output
    have hk' := keeps_newHash t' ⟨fs⟩
    refine ⟨.hash (t'.newHash ⟨fs⟩).1, (t'.newHash ⟨fs⟩).2, ?_, hk.trans hk', ?_⟩
    · rw [Eval.expr, Eval.level, Eval.run_bind_ok hfs]
      rfl
    · refine shows_hash (by simp [newHash]) ?_ ?_
      · rw [hash_newHash, hfst]
        exact hn
      · rw [hash_newHash]
        exact hshow.imp fun _ _ hx => hx.mono hk'

/-! ## Printed values -/

theorem Machine.RunsTo.wf {m m' : Machine} {source : String} {r : Except (List ParseError) Value}
    (h : m.RunsTo source r m') (hs : m.store.WF) : m'.store.WF := by
  obtain ⟨n, h⟩ := h
  simp only [runSource] at h
  split at h
  · obtain ⟨⟨v, m₁⟩, hrun, heq⟩ := Option.map_eq_some_iff.1 h
    cases heq
    exact hs.step (.run m.output n Store.global (parse source).program v m₁ hrun)
  · cases h
    exact hs

theorem Store.Shows.ends {s : Store} {v : Value} {e : Expr} (h : s.Shows v e) (m : Machine) :
    ∃ w m', m.Ends [.expr e] (.ok w) m' ∧ m'.output = m.output ∧ m.store.Keeps m'.store ∧ m'.store.Shows w e := by
  have hev : Evaluates (sizeOf e + 1) Store.global e := h.evaluates (Nat.lt_succ_self _)
  obtain ⟨w, t, hrun, hk, hw⟩ := hev m.store m.output
  exact ⟨w, ⟨t, m.output⟩, ⟨sizeOf e + 1, Eval.run_bind_ok hrun _⟩, rfl, hk, hw⟩

namespace Store

/-- The text of data is a program without errors. On every machine, a new one for instance, it comes to its
end with data of the same layout, prints nothing, and leaves the arrays and hashes that are there as they
are; and if the old value is among them, the new one is equal to it by what it holds. -/
theorem text_runs_back {s : Store} {v : Value} (hs : s.WF) (hv : s.HasValue v) (hd : s.IsData v) :
    (parse (s.text v)).errors = [] ∧
    ∀ m : Machine, m.store.WF → ∃ w m', (∀ r m₂, m.RunsTo (s.text v) r m₂ ↔ r = .ok w ∧ m₂ = m') ∧
      m'.output = m.output ∧ m.store.Keeps m'.store ∧ m'.store.outline w = s.outline v ∧
      (s.Keeps m.store → m'.store.alike v w = true) := by
  obtain ⟨e, he⟩ := hd.exists_shows hs hv
  have hp : parse (s.text v) = ⟨⟨[.expr e]⟩, []⟩ := by
    rw [text, he.outline_eq hs]
    exact parse_print he.isData
  have herr : (parse (s.text v)).errors = [] := by rw [hp]
  refine ⟨herr, fun m hm => ?_⟩
  obtain ⟨w, m', hend, hout, hk, hw⟩ := he.ends m
  have hruns : ∀ r m₂, m.RunsTo (s.text v) r m₂ ↔ r = .ok w ∧ m₂ = m' := fun r m₂ =>
    Machine.runsTo_iff_of_ends herr (by rw [hp]; exact hend)
  have hwf : m'.store.WF := ((hruns _ _).2 ⟨rfl, rfl⟩).wf hm
  refine ⟨w, m', hruns, hout, hk, ?_, fun hsm => ?_⟩
  · rw [hw.outline_eq hwf, he.outline_eq hs]
  · exact alike_of_shows (he.mono (hsm.trans hk)) hw

/-- An array with a negative number, twice in another array and once more in a hash between. -/
def shared : Store :=
  let row := (initial.newArray #[.int (-7), .bool true]).2
  let table := (row.newHash ⟨[(.integer 1, ⟨.int 1, .array ⟨0⟩⟩),
    (.boolean false, ⟨.bool false, .int Int64.maxValue⟩)]⟩).2
  (table.newArray #[.array ⟨0⟩, .hash ⟨0⟩, .array ⟨0⟩]).2

theorem reachable_shared : shared.Reachable := by
  have h1 := Reachable.initial.step (.newArray #[.int (-7), .bool true] (by simp [HasValue]))
  have h2 := h1.step (.newHash ⟨[(.integer 1, ⟨.int 1, .array ⟨0⟩⟩),
    (.boolean false, ⟨.bool false, .int Int64.maxValue⟩)]⟩ ⟨by simp [HasValue, newArray], by simp⟩)
  exact h2.step (.newArray #[.array ⟨0⟩, .hash ⟨0⟩, .array ⟨0⟩] (by simp [HasValue, newArray, newHash]))

theorem isData_shared : shared.IsData (.array ⟨1⟩) := by
  have hrow : shared.IsData (.array ⟨0⟩) := by
    refine .array fun x hx => ?_
    have hx' : x ∈ [Value.int (-7), .bool true] := hx
    rcases List.mem_pair.1 hx' with rfl | rfl
    · exact .scalar (.int (by decide))
    · exact .scalar (.bool true)
  have htable : shared.IsData (.hash ⟨0⟩) := by
    have hes : (shared.hash ⟨0⟩).entries = [(.integer 1, ⟨.int 1, .array ⟨0⟩⟩),
      (.boolean false, ⟨.bool false, .int Int64.maxValue⟩)] := rfl
    refine .hash ?_ ?_ ?_
    · simp only [hes, List.forall_mem_cons]
      exact ⟨.int (by decide), .bool false, by simp⟩
    · simp only [Hash.Keyed, hes, List.forall_mem_cons]
      exact ⟨rfl, rfl, by simp⟩
    · simp only [hes, List.forall_mem_cons]
      exact ⟨hrow, .scalar (.int (by decide)), by simp⟩
  refine .array fun x hx => ?_
  have hx' : x ∈ [Value.array ⟨0⟩, .hash ⟨0⟩, .array ⟨0⟩] := hx
  simp only [List.mem_cons, List.not_mem_nil, or_false] at hx'
  rcases hx' with rfl | rfl | rfl
  exacts [hrow, htable, hrow]

theorem text_runs_back_shared : shared.WF ∧ shared.HasValue (.array ⟨1⟩) ∧ shared.IsData (.array ⟨1⟩) ∧
    shared.text (.array ⟨1⟩) = "[[-7, true], \x7b 1: [-7, true], false: 9223372036854775807 \x7d, [-7, true]]" ∧
    (∃ w m', Machine.initial.RunsTo (shared.text (.array ⟨1⟩)) (.ok w) m' ∧
      m'.store.outline w = shared.outline (.array ⟨1⟩)) ∧
    ∃ w m', (Machine.mk shared "").RunsTo (shared.text (.array ⟨1⟩)) (.ok w) m' ∧
      m'.store.alike (.array ⟨1⟩) w = true := by
  have hs := reachable_shared.wf
  have hv : shared.HasValue (.array ⟨1⟩) := Nat.lt_succ_self 1
  have hruns := (text_runs_back hs hv isData_shared).2
  obtain ⟨w, m₁, hw, -, -, hout, -⟩ := hruns .initial wf_initial
  obtain ⟨x, m₂, hx, -, -, -, heq⟩ := hruns ⟨shared, ""⟩ hs
  exact ⟨hs, hv, isData_shared, by decide +kernel, ⟨w, m₁, (hw _ _).2 ⟨rfl, rfl⟩, hout⟩,
    x, m₂, (hx _ _).2 ⟨rfl, rfl⟩, heq (.refl shared)⟩

end Store

end MonkeyLang
