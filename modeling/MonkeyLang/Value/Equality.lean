/-
Equality of values by what they hold. Two arrays that are being compared already count as equal, so
that data that contain themselves can be compared too.
-/
import MonkeyLang.Store.Basic

namespace MonkeyLang.Store

/-- No difference shows up to a depth, taking the pairs of arrays of `path` for equal. -/
def alikeWithin (s : Store) : Nat → List (ArrayRef × ArrayRef) → Value → Value → Bool
  | 0, _, _, _ => true
  | n + 1, path, v, w =>
    match v, w with
    | .array a, .array b =>
      a == b || path.contains (a, b) ||
        ((s.elements a).size == (s.elements b).size &&
          ((s.elements a).toList.zip (s.elements b).toList).all fun p =>
            s.alikeWithin n ((a, b) :: path) p.1 p.2)
    | .hash a, .hash b =>
      a == b ||
        ((s.hash a).size == (s.hash b).size &&
          (s.hash a).entries.all fun e =>
            match (s.hash b).get? e.1 with
            | some p => s.alikeWithin n path e.2.key p.key && s.alikeWithin n path e.2.value p.value
            | none => false)
    | .error e, .error f => e.sameAs f
    | v, w => v.identical w

/-- How deep two values can go before a pair of arrays comes back: every pair of arrays once, and
between two of them every hash once. -/
def pairDepthBound (s : Store) : Nat :=
  (s.arrays.size * s.arrays.size + 1) * (s.hashes.size + 1)

/-- Equal by what they hold. -/
def alike (s : Store) (v w : Value) : Bool := s.alikeWithin s.pairDepthBound [] v w

end MonkeyLang.Store
