/-
Strings that are nearly the same are different keys. A digest is mixed byte by byte, and each step can be undone: the
factor has an inverse modulo `2 ^ 64`, and so has an exclusive or. So what stands behind two texts neither makes nor
undoes a collision (`digest_append_inj`), and texts that differ in a single byte do not collide, although others do.
In the hash of a literal such strings have an entry each (`near_twins_have_separate_entries`).
-/
import MonkeyLang.Proofs.Eval.HashLiteral
import MonkeyLang.Proofs.Session.Printed

namespace MonkeyLang

namespace Text

/-! ## Undoing a step -/

/-- The inverse of the factor modulo `2 ^ 64`, which an odd number has. -/
def digestInverse : UInt64 := 14886173955864302971

theorem digestFactor_mul_digestInverse : digestFactor * digestInverse = 1 := by decide

theorem mul_digestFactor_inj {x y : UInt64} : x * digestFactor = y * digestFactor ↔ x = y := by
  constructor
  · intro h
    have hinv := congrArg (· * digestInverse) h
    simpa only [UInt64.mul_assoc, digestFactor_mul_digestInverse, UInt64.mul_one] using hinv
  · rintro rfl
    rfl

theorem mixByte_left_inj {h h' : UInt64} (b : UInt8) : mixByte h b = mixByte h' b ↔ h = h' := by
  rw [mixByte, mixByte, mul_digestFactor_inj, UInt64.xor_left_inj]

theorem mixByte_right_inj (h : UInt64) {b b' : UInt8} : mixByte h b = mixByte h b' ↔ b = b' := by
  rw [mixByte, mixByte, mul_digestFactor_inj, UInt64.xor_right_inj, UInt8.toUInt64_inj]

/-- The same bytes do not bring two digests together. -/
theorem foldl_mixByte_inj {h h' : UInt64} (bytes : List UInt8) :
    bytes.foldl mixByte h = bytes.foldl mixByte h' ↔ h = h' := by
  induction bytes generalizing h h' with
  | nil => exact .rfl
  | cons b bytes ih => rw [List.foldl_cons, List.foldl_cons, ih, mixByte_left_inj]

theorem digest_append_inj {p q : List UInt8} (s : List UInt8) :
    digest (p ++ s) = digest (q ++ s) ↔ digest p = digest q := by
  rw [digest_append, digest_append, foldl_mixByte_inj]

/-! ## Texts that differ in one byte -/

/-- Of the same length, and different at exactly one place. -/
structure NearTwins (xs ys : List UInt8) : Prop where
  length_eq : xs.length = ys.length
  place : ∃! i : Nat, xs[i]? ≠ ys[i]?

theorem nearTwins_iff {xs ys : List UInt8} : NearTwins xs ys ↔
    ∃ pre x y post, xs = pre ++ x :: post ∧ ys = pre ++ y :: post ∧ x ≠ y := by
  constructor
  · rintro ⟨hlen, i, hi, hsole⟩
    have hsame : ∀ j, j ≠ i → xs[j]? = ys[j]? := fun j hj => by_contra fun hne => hj (hsole j hne)
    have hx : i < xs.length := by
      by_contra hge
      exact hi (by rw [List.getElem?_eq_none (by omega), List.getElem?_eq_none (by omega)])
    have hy : i < ys.length := hlen ▸ hx
    refine ⟨xs.take i, xs[i], ys[i], xs.drop (i + 1), ?_, ?_, ?_⟩
    · rw [← List.drop_eq_getElem_cons hx, List.take_append_drop]
    · -- before and behind the place both are the same
      have hpre : xs.take i = ys.take i := by
        refine List.ext_getElem? fun j => ?_
        rw [List.getElem?_take, List.getElem?_take]
        split
        · exact hsame j (by omega)
        · rfl
      have hpost : xs.drop (i + 1) = ys.drop (i + 1) := by
        refine List.ext_getElem? fun j => ?_
        rw [List.getElem?_drop, List.getElem?_drop]
        exact hsame _ (by omega)
      rw [hpre, hpost, ← List.drop_eq_getElem_cons hy, List.take_append_drop]
    · rwa [List.getElem?_eq_getElem hx, List.getElem?_eq_getElem hy, ne_eq, Option.some.injEq] at hi
  · rintro ⟨pre, x, y, post, rfl, rfl, hne⟩
    refine ⟨by simp, pre.length, by simpa using hne, fun j hj => ?_⟩
    by_contra hjne
    refine hj ?_
    rcases Nat.lt_or_gt_of_ne hjne with hlt | hgt
    · rw [List.getElem?_append_left hlt, List.getElem?_append_left hlt]
    · obtain ⟨k, rfl⟩ := Nat.exists_eq_add_of_lt hgt
      rw [List.getElem?_append_right (by omega), List.getElem?_append_right (by omega), Nat.add_assoc,
        Nat.add_sub_cancel_left, List.getElem?_cons_succ, List.getElem?_cons_succ]

theorem NearTwins.digest_ne {xs ys : List UInt8} (h : NearTwins xs ys) : digest xs ≠ digest ys := by
  obtain ⟨pre, x, y, post, rfl, rfl, hne⟩ := nearTwins_iff.1 h
  intro heq
  -- the bytes behind the place do not matter, and at the place one step from the same digest is left
  rw [digest_append, digest_append, List.foldl_cons, List.foldl_cons, foldl_mixByte_inj, mixByte_right_inj] at heq
  exact hne heq

end Text

/-! ## Entries -/

theorem Hash.mem_keysOf {ps : List HashPair} {p : HashPair} {k : HashKey} (hp : p ∈ ps) (hk : p.key.key? = some k) :
    k ∈ keysOf ps :=
  List.mem_filterMap.2 ⟨p, hp, hk⟩

/-- A key that comes up has an entry, and that is the last pair with it. -/
theorem Hash.Collects.exists_entry {h : Hash} {ps : List HashPair} (hh : h.Collects ps) {k : HashKey}
    (hk : k ∈ keysOf ps) : ∃ x, (k, x) ∈ h.entries ∧ lastUnder k ps = some x := by
  obtain ⟨⟨l, x⟩, hx, rfl⟩ := List.mem_map.1 ((hh.mem_iff k).2 hk)
  exact ⟨x, hx, hh.entry _ hx⟩

namespace Eval

open Text (bytesOf digest NearTwins)

/-- What stands behind two texts decides nothing about a collision, and texts that differ in one byte have different
digests. So strings that differ in one byte are different keys, and in a hash literal where both come up each has an
entry of its own, under which it is found. -/
theorem near_twins_have_separate_entries :
    (∀ p q s : List UInt8, digest (p ++ s) = digest (q ++ s) ↔ digest p = digest q) ∧
    (∀ xs ys : List UInt8, NearTwins xs ys → digest xs ≠ digest ys) ∧
    ∀ a b : String, NearTwins (bytesOf a) (bytesOf b) →
      ∃ k l, (Value.string a).key? = some k ∧ (Value.string b).key? = some l ∧ k ≠ l ∧ k.text ≠ l.text ∧
        ∀ scope es m ps m₁ v w, PairsGive scope es m ps m₁ → ⟨.string a, v⟩ ∈ ps → ⟨.string b, w⟩ ∈ ps →
          ∃ r m', Gives scope (.hash es) m (.ok (.hash r)) m' ∧
            ∃ x y, (k, x) ∈ (m'.store.hash r).entries ∧ (l, y) ∈ (m'.store.hash r).entries ∧
              Hash.lastUnder k ps = some x ∧ Hash.lastUnder l ps = some y ∧
              m'.store.subscript (.hash r) (.string a) = .ok x.value ∧
              m'.store.subscript (.hash r) (.string b) = .ok y.value := by
  refine ⟨fun p q s => Text.digest_append_inj s, fun xs ys h => h.digest_ne, fun a b hab => ?_⟩
  have hne : HashKey.string (digest (bytesOf a)) ≠ .string (digest (bytesOf b)) := by
    rw [ne_eq, HashKey.string.injEq]
    exact hab.digest_ne
  refine ⟨_, _, rfl, rfl, hne, fun htext => hne (HashKey.text_inj htext), ?_⟩
  intro scope es m ps m₁ v w hes hv hw
  obtain ⟨h, hh, hgives⟩ := gives_hash hes
  have hnew : (made h m₁).store.hash (m₁.store.newHash h).1 = h := Store.hash_newHash m₁.store h
  obtain ⟨x, hx, hlastx⟩ := hh.exists_entry (Hash.mem_keysOf hv rfl)
  obtain ⟨y, hy, hlasty⟩ := hh.exists_entry (Hash.mem_keysOf hw rfl)
  refine ⟨_, _, hgives, x, y, by rwa [hnew], by rwa [hnew], hlastx, hlasty, ?_, ?_⟩
  · rw [subscript_of_collects hh hnew rfl, Hash.valueUnder, hlastx]
    rfl
  · rw [subscript_of_collects hh hnew rfl, Hash.valueUnder, hlasty]
    rfl

/-- Two letters with an accent, whose forms differ in their last byte: the first string comes up again behind the
second one, and takes its own entry over. -/
theorem near_twins_have_separate_entries_accents :
    let pairs : List (Expr × Expr) := [(.string "né", .int 1), (.string "nè", .int 2), (.string "né", .int 3)]
    NearTwins (bytesOf "né") (bytesOf "nè") ∧ digest (bytesOf "né") ≠ digest (bytesOf "nè") ∧
    ∃ r m', Gives Store.global (.hash pairs) .initial (.ok (.hash r)) m' ∧
      (∃ k l x y, k ≠ l ∧ (k, x) ∈ (m'.store.hash r).entries ∧ (l, y) ∈ (m'.store.hash r).entries) ∧
      m'.store.subscript (.hash r) (.string "né") = .ok (.int 3) ∧
      m'.store.subscript (.hash r) (.string "nè") = .ok (.int 2) := by
  intro pairs
  have htwins : NearTwins (bytesOf "né") (bytesOf "nè") :=
    Text.nearTwins_iff.2 ⟨[110, 195], 169, 168, [], by decide +kernel, by decide +kernel, by decide⟩
  obtain ⟨-, hdigest, hstrings⟩ := near_twins_have_separate_entries
  have hpairs : PairsGive Store.global pairs .initial
      [⟨.string "né", .int 1⟩, ⟨.string "nè", .int 2⟩, ⟨.string "né", .int 3⟩] .initial :=
    .cons ⟨1, rfl⟩ rfl ⟨1, rfl⟩ (.cons ⟨1, rfl⟩ rfl ⟨1, rfl⟩ (.cons ⟨1, rfl⟩ rfl ⟨1, rfl⟩ (.nil _)))
  obtain ⟨k, l, hk, hl, hne, -, hentries⟩ := hstrings "né" "nè" htwins
  obtain ⟨r, m', hgives, x, y, hx, hy, hlastx, hlasty, hsubx, hsuby⟩ :=
    hentries _ _ _ _ _ (.int 1) (.int 2) hpairs (by simp) (by simp)
  obtain rfl := Option.some.inj hk
  obtain rfl := Option.some.inj hl
  obtain rfl : ⟨.string "né", .int 3⟩ = x := Option.some.inj (Eq.trans (by decide +kernel) hlastx)
  obtain rfl : ⟨.string "nè", .int 2⟩ = y := Option.some.inj (Eq.trans (by decide +kernel) hlasty)
  exact ⟨htwins, hdigest _ _ htwins, r, m', hgives, ⟨_, _, _, _, hne, hx, hy⟩, hsubx, hsuby⟩

end Eval

end MonkeyLang
