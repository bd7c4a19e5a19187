/-
Hash literals. Whatever the pairs of a literal are evaluated to, the hash has one entry for each key, in the order in
which the keys first came up, and each entry is the last pair with its key (`Hash.Collects`); so a subscript finds the
value of the last pair. What cannot be a key ends the literal before the value that goes with it is evaluated
(`hash_literal_keeps_last`). Two values have the same key exactly if they are the same integer or boolean, or strings
with the same digest, and the text of a key tells as much (`Value.sameKey_iff_text`).
-/
import MonkeyLang.Proofs.Eval.Growth
import MonkeyLang.Proofs.Json.Text
import MonkeyLang.Proofs.Session.Signals

namespace MonkeyLang

/-! ## Keys -/

/-- Values that are found in the same place of a hash. -/
inductive Value.SameKey : Value → Value → Prop where
  | int (n : Int64) : SameKey (.int n) (.int n)
  | bool (b : Bool) : SameKey (.bool b) (.bool b)
  | string {s t : String} (h : Text.digest (Text.bytesOf s) = Text.digest (Text.bytesOf t)) :
    SameKey (.string s) (.string t)

variable {a b : Value} {k l : HashKey}

theorem Value.sameKey_iff (ha : a.key? = some k) (hb : b.key? = some l) : a.SameKey b ↔ k = l := by
  constructor
  · rintro (n | b | h)
    · exact Option.some.inj (ha.symm.trans hb)
    · exact Option.some.inj (ha.symm.trans hb)
    · obtain rfl := Option.some.inj ha
      obtain rfl := Option.some.inj hb
      rw [h]
  · rintro rfl
    cases a <;> cases b <;> simp only [Value.key?, Option.some.injEq, reduceCtorEq] at ha hb <;> subst ha <;>
      simp only [HashKey.integer.injEq, HashKey.boolean.injEq, HashKey.string.injEq, reduceCtorEq] at hb
    · exact hb ▸ .int _
    · exact hb ▸ .bool _
    · exact .string hb.symm

theorem Text.signedDecimal_inj {n m : Int} (h : signedDecimal n = signedDecimal m) : n = m := by
  refine (Json.signedDecimal_append_inj Json.stops_nil Json.stops_nil ?_).1
  rw [h]

theorem Text.decimal_inj {n m : Nat} (h : decimal n = decimal m) : n = m := by
  have hdigits : digits n = digits m := String.ofList_injective h
  rw [← numeral_digits n, hdigits, numeral_digits]

/-- The letter that the text of a key begins with. -/
def HashKey.initial : HashKey → Char
  | integer _ => 'I'
  | boolean _ => 'B'
  | string _ => 'S'

theorem HashKey.head?_text (k : HashKey) : k.text.toList.head? = some k.initial := by
  cases k <;> simp [text, initial]

/-- The text of a key says of what type it is and what it stands for. -/
theorem HashKey.text_inj (h : k.text = l.text) : k = l := by
  have hinitial : k.initial = l.initial := by
    rw [← Option.some.injEq, ← head?_text, ← head?_text, h]
  cases k with
  | integer n =>
    cases l with
    | integer m =>
      rw [text, text, String.append_right_inj] at h
      rw [Int64.toInt_inj.1 (Text.signedDecimal_inj h)]
    | _ => simp [initial] at hinitial
  | boolean b =>
    cases l with
    | boolean c =>
      rw [text, text, String.append_right_inj] at h
      revert h
      cases b <;> cases c <;> decide
    | _ => simp [initial] at hinitial
  | string d =>
    cases l with
    | string e =>
      rw [text, text, String.append_right_inj] at h
      rw [UInt64.toNat_inj.1 (Text.decimal_inj h)]
    | _ => simp [initial] at hinitial

theorem Value.sameKey_iff_text (ha : a.key? = some k) (hb : b.key? = some l) : a.SameKey b ↔ k.text = l.text := by
  rw [sameKey_iff ha hb]
  exact ⟨fun h => h ▸ rfl, HashKey.text_inj⟩

/-! ## The pairs of a hash -/

namespace Hash

/-- The keys of pairs, one for each pair. -/
def keysOf (ps : List HashPair) : List HashKey := ps.filterMap fun p => p.key.key?

/-- The last pair with a key. -/
def lastUnder (k : HashKey) (ps : List HashPair) : Option HashPair := (ps.filter fun p => p.key.key? == some k).getLast?

/-- The value of the last pair with a key, or null if there is none. -/
def valueUnder (k : HashKey) (ps : List HashPair) : Value := ((lastUnder k ps).map HashPair.value).getD .null

/-- The hash has one entry for each key of the pairs, in the order in which the keys first come up, and each entry is
the last pair with its key. -/
structure Collects (h : Hash) (ps : List HashPair) : Prop where
  nodup : (h.entries.map Prod.fst).Nodup
  mem_iff : ∀ k, k ∈ h.entries.map Prod.fst ↔ k ∈ keysOf ps
  ordered : (h.entries.map Prod.fst).Pairwise fun k l => (keysOf ps).idxOf k < (keysOf ps).idxOf l
  entry : ∀ e ∈ h.entries, lastUnder e.1 ps = some e.2
  find : ∀ k, h.get? k = lastUnder k ps

variable {h : Hash} {ps : List HashPair} {p : HashPair}

theorem keysOf_append (hk : p.key.key? = some k) : keysOf (ps ++ [p]) = keysOf ps ++ [k] := by
  simp [keysOf, hk]

theorem lastUnder_append (hk : p.key.key? = some k) (l : HashKey) :
    lastUnder l (ps ++ [p]) = if l = k then some p else lastUnder l ps := by
  rw [lastUnder, List.filter_append, List.getLast?_append]
  by_cases hlk : l = k
  · simp [hlk, hk]
  · simp [hlk, hk, lastUnder, Ne.symm hlk]

theorem collects_empty : empty.Collects [] where
  nodup := .nil
  mem_iff _ := .rfl
  ordered := .nil
  entry _ he := nomatch he
  find _ := rfl

/-- One more pair behind the others. -/
theorem Collects.insert (hh : h.Collects ps) (hk : p.key.key? = some k) : (h.insert k p).Collects (ps ++ [p]) := by
  have hfind : ∀ l, (h.insert k p).get? l = lastUnder l (ps ++ [p]) := by
    intro l
    rw [get?_insert, lastUnder_append hk, hh.find]
  have hnodup := nodup_insert hh.nodup k p
  refine ⟨hnodup, fun l => ?_, ?_, fun e he => ?_, hfind⟩
  · rw [keys_insert, keysOf_append hk, List.mem_append, List.mem_singleton, ← hh.mem_iff]
    split
    · next hmem => exact ⟨.inl, fun hl => hl.elim id fun heq => heq ▸ hmem⟩
    · rw [List.mem_append, List.mem_singleton]
  · have hidx : ∀ l ∈ h.entries.map Prod.fst, (keysOf (ps ++ [p])).idxOf l = (keysOf ps).idxOf l := by
      intro l hl
      rw [keysOf_append hk, List.idxOf_append, if_pos ((hh.mem_iff l).1 hl)]
    have hold : (h.entries.map Prod.fst).Pairwise fun l l' =>
        (keysOf (ps ++ [p])).idxOf l < (keysOf (ps ++ [p])).idxOf l' :=
      hh.ordered.imp_of_mem fun hl hl' hlt => by rwa [hidx _ hl, hidx _ hl']
    rw [keys_insert]
    split
    · exact hold
    · next hmem =>
      refine List.pairwise_append.2 ⟨hold, List.pairwise_singleton .., fun l hl l' hl' => ?_⟩
      -- a key that is new first comes up behind all others
      rw [List.mem_singleton.1 hl', hidx l hl, keysOf_append hk, List.idxOf_append,
        if_neg fun hin => hmem ((hh.mem_iff k).2 hin)]
      exact Nat.lt_of_lt_of_le (List.idxOf_lt_length_of_mem ((hh.mem_iff l).1 hl)) (Nat.le_add_left ..)
  · rw [← hfind]
    exact get?_of_mem hnodup he

end Hash

/-! ## Evaluating pairs -/

namespace Eval

/-- The pairs are evaluated one after another, each key before its value, and all keys can be keys. -/
inductive PairsGive (scope : FrameRef) : List (Expr × Expr) → Machine → List HashPair → Machine → Prop where
  | nil (m : Machine) : PairsGive scope [] m [] m
  | cons {e e' : Expr} {es : List (Expr × Expr)} {p : HashPair} {ps : List HashPair} {m m₁ m₂ m₃ : Machine}
    (he : Gives scope e m (.ok p.key) m₁) (hk : p.key.key?.isSome) (he' : Gives scope e' m₁ (.ok p.value) m₂)
    (hes : PairsGive scope es m₂ ps m₃) : PairsGive scope ((e, e') :: es) m (p :: ps) m₃

variable {scope : FrameRef} {es : List (Expr × Expr)} {ps : List HashPair} {m m₁ m₂ : Machine}

/-- Pairs behind others that were evaluated go on with a hash of those, at every depth that they need. -/
theorem PairsGive.run_append (hes : PairsGive scope es m ps m₁) {x : Hash} {qs : List HashPair} (hx : x.Collects qs) :
    ∃ n, ∃ h : Hash, h.Collects (qs ++ ps) ∧ ∀ k, n ≤ k → ∀ es', (pairs (expr k) scope x (es ++ es')).run m =
      (pairs (expr k) scope h es').run m₁ := by
  induction hes generalizing x qs with
  | nil m => exact ⟨0, x, by rwa [List.append_nil], fun _ _ _ => rfl⟩
  | @cons e e' es p ps m m₁ m₂ m₃ he hk he' _ ih =>
    obtain ⟨key, hkey⟩ := Option.isSome_iff_exists.1 hk
    obtain ⟨n₁, hn₁⟩ := he.run_of_le
    obtain ⟨n₂, hn₂⟩ := he'.run_of_le
    obtain ⟨n₃, h, hh, hn₃⟩ := ih (hx.insert hkey)
    refine ⟨max n₁ (max n₂ n₃), h, by rwa [List.append_assoc] at hh, fun k hle es' => ?_⟩
    have hkeyOf : (keyOf p.key).run m₁ = some (.ok key, m₁) := by rw [keyOf, hkey]; rfl
    rw [List.cons_append, pairs, run_bind_ok (hn₁ k (by omega)), run_bind_ok hkeyOf, run_bind_ok (hn₂ k (by omega))]
    exact hn₃ k (by omega) es'

/-- The machine with a new hash. -/
def made (h : Hash) (m : Machine) : Machine := ⟨(m.store.newHash h).2, m.output⟩

theorem gives_hash (hes : PairsGive scope es m ps m₁) : ∃ h : Hash, h.Collects ps ∧
    Gives scope (.hash es) m (.ok (.hash (m₁.store.newHash h).1)) (made h m₁) := by
  obtain ⟨n, h, hh, hrun⟩ := hes.run_append Hash.collects_empty
  have hpairs := hrun n (Nat.le_refl n) []
  rw [List.append_nil] at hpairs
  refine ⟨h, hh, n + 1, ?_⟩
  rw [expr, level, run_bind_ok (hpairs.trans rfl)]
  rfl

theorem gives_hash_unusable (hes : PairsGive scope es m ps m₁) {e : Expr} {v : Value} (he : Gives scope e m₁ (.ok v) m₂)
    (hv : v.key? = none) (e' : Expr) (es' : List (Expr × Expr)) :
    Gives scope (.hash (es ++ (e, e') :: es')) m (.error (.failed (.unusableKey v.type))) m₂ := by
  obtain ⟨n₁, h, -, hrun⟩ := hes.run_append Hash.collects_empty
  obtain ⟨n₂, hn₂⟩ := he.run_of_le
  have hkeyOf : (keyOf v).run m₂ = some (.error (.failed (.unusableKey v.type)), m₂) := by rw [keyOf, hv]; rfl
  have hpairs := hrun (max n₁ n₂) (Nat.le_max_left n₁ n₂) ((e, e') :: es')
  rw [pairs, run_bind_ok (hn₂ _ (Nat.le_max_right n₁ n₂)), run_bind_error hkeyOf] at hpairs
  exact ⟨max n₁ n₂ + 1, run_bind_error hpairs _⟩

/-! ## Subscripts -/

theorem subscript_of_collects {h : Hash} (hh : h.Collects ps) {s : Store} {r : HashRef} (hr : s.hash r = h) {v : Value}
    (hv : v.key? = some k) : s.subscript (.hash r) v = .ok (Hash.valueUnder k ps) := by
  simp only [Store.subscript, hv, Store.valueAt, hr, hh.find, Hash.valueUnder]

theorem Gives.extends {e : Expr} {o : Except Signal Value} (h : Gives scope e m o m₁) : m.store.Extends m₁.store := by
  obtain ⟨n, hn⟩ := h
  exact (Invariant.growing.keeps_expr n e scope m.store trivial trivial).extends hn

/-- A hash is not changed by what comes after it. -/
theorem gives_index {h : Hash} {c : Expr} (hh : h.Collects ps)
    (hc : Gives scope c m (.ok (.hash (m₁.store.newHash h).1)) (made h m₁)) {e : Expr} {v : Value}
    (he : Gives scope e (made h m₁) (.ok v) m₂) (hv : v.key? = some k) :
    Gives scope (.index c e) m (.ok (Hash.valueUnder k ps)) m₂ := by
  have hnew : (made h m₁).store.hashes[(m₁.store.newHash h).1.index]? = some h := by simp [made, Store.newHash]
  have hhash : m₂.store.hash (m₁.store.newHash h).1 = h := by
    rw [Store.hash, he.extends.hashes _ h hnew, Option.getD_some]
  have hgives := gives_subscript hc he
  rwa [subscript_of_collects hh hhash hv] at hgives

/-- A hash literal whose keys can all be keys collects its pairs, and nothing is found in it but the value of the last
pair with a key; a key that cannot be one ends the literal where it was evaluated. -/
theorem hash_literal_keeps_last (scope : FrameRef) :
    (∀ es ps m m₁, PairsGive scope es m ps m₁ → ∃ h : Hash, h.Collects ps ∧
      (∀ o m', Gives scope (.hash es) m o m' ↔ o = .ok (.hash (m₁.store.newHash h).1) ∧ m' = made h m₁) ∧
      (∀ (s : Store) (r : HashRef), s.hash r = h → ∀ (v : Value) (k : HashKey), v.key? = some k →
        s.subscript (.hash r) v = .ok (Hash.valueUnder k ps)) ∧
      ∀ e v k m₂, Gives scope e (made h m₁) (.ok v) m₂ → v.key? = some k →
        ∀ o m', Gives scope (.index (.hash es) e) m o m' ↔ o = .ok (Hash.valueUnder k ps) ∧ m' = m₂) ∧
    (∀ es ps m m₁ e v m₂ e' es', PairsGive scope es m ps m₁ → Gives scope e m₁ (.ok v) m₂ → v.key? = none →
      ∃ err : RuntimeError, err.kind = .unusableHashKey ∧ err.message = "Unusable as hash key: " ++ v.type.name ∧
        ∀ o m', Gives scope (.hash (es ++ (e, e') :: es')) m o m' ↔ o = .error (.failed err) ∧ m' = m₂) ∧
    ∀ (a b : Value) (k l : HashKey), a.key? = some k → b.key? = some l →
      (k = l ↔ a.SameKey b) ∧ (k.text = l.text ↔ a.SameKey b) := by
  refine ⟨fun es ps m m₁ hes => ?_, fun es ps m m₁ e v m₂ e' es' hes he hv => ?_, fun a b k l ha hb => ?_⟩
  · obtain ⟨h, hh, hgives⟩ := gives_hash hes
    refine ⟨h, hh, hgives.iff, fun s r hr v k hv => subscript_of_collects hh hr hv, fun e v k m₂ he hv => ?_⟩
    exact (gives_index hh hgives he hv).iff
  · exact ⟨.unusableKey v.type, rfl, rfl, (gives_hash_unusable hes he hv e' es').iff⟩
  · exact ⟨(Value.sameKey_iff ha hb).symm, (Value.sameKey_iff_text ha hb).symm⟩

/-- The first key comes back last, behind something printed; a function is no key, and what stands behind it is not
printed. -/
theorem hash_literal_keeps_last_repeated :
    let prints (n : Int64) : Expr := .call (.ident "puts") [.int n]
    let pairs : List (Expr × Expr) := [(.int 1, .int 10), (.string "a", .bool true), (.int 1, prints 2)]
    (∃ m', Gives Store.global (.index (.hash pairs) (.int 1)) .initial (.ok .null) m' ∧ m'.output = "2\n") ∧
    (∃ m', Gives Store.global (.index (.hash pairs) (.string "a")) .initial (.ok (.bool true)) m') ∧
    ∃ err m', Gives Store.global (.hash (pairs ++ [(.ident "len", prints 3)])) .initial (.error (.failed err)) m' ∧
      err.message = "Unusable as hash key: BUILTIN" ∧ m'.output = "2\n" := by
  intro prints pairs
  have hprints : Gives Store.global (prints 2) .initial (.ok .null) ⟨.initial, "2\n"⟩ := ⟨2, by decide +kernel⟩
  have hpairs : PairsGive Store.global pairs .initial
      [⟨.int 1, .int 10⟩, ⟨.string "a", .bool true⟩, ⟨.int 1, .null⟩] ⟨.initial, "2\n"⟩ :=
    .cons ⟨1, rfl⟩ rfl ⟨1, rfl⟩ (.cons ⟨1, rfl⟩ rfl ⟨1, rfl⟩ (.cons ⟨1, rfl⟩ rfl hprints (.nil _)))
  obtain ⟨h, -, -, -, hindex⟩ := (hash_literal_keeps_last Store.global).1 _ _ _ _ hpairs
  obtain ⟨err, -, hmessage, hfails⟩ := (hash_literal_keeps_last Store.global).2.1 _ _ _ _ (.ident "len") _ _ (prints 3) []
    hpairs ⟨1, rfl⟩ rfl
  refine ⟨⟨_, (hindex (.int 1) _ _ _ ⟨1, rfl⟩ rfl _ _).2 ⟨?_, rfl⟩, rfl⟩,
    ⟨_, (hindex (.string "a") _ _ _ ⟨1, rfl⟩ rfl _ _).2 ⟨?_, rfl⟩⟩, err, _, (hfails _ _).2 ⟨rfl, rfl⟩, hmessage, rfl⟩
  · decide +kernel
  · decide +kernel

end Eval

end MonkeyLang
