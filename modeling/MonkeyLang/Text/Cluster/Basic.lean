/-
Extended grapheme clusters: what a reader takes for one character, though several may spell it. A
text is cut into them from left to right; whether a character joins the cluster before it depends on
that cluster alone.
-/
import MonkeyLang.Text.Cluster.Class

namespace MonkeyLang.Text

/-! ## Where a cluster goes on

A cluster begun is given by its characters, the last one first. -/

def joinsSyllable (last c : Char) : Bool :=
  match hangul? last, hangul? c with
  | some h, some k => h.isContinuedBy k
  | _, _ => false

/-- A consonant joins a consonant before it when one of the marks between them is a linker. -/
def joinsConjunct (run : List Char) (c : Char) : Bool :=
  consonants.contains c && (run.takeWhile isConjunctMark).any linkers.contains &&
    (run.dropWhile isConjunctMark).head?.any consonants.contains

/-- A pictograph joins a pictograph before it, which may have marks, by a joiner. -/
def joinsPictograph (last : Char) (before : List Char) (c : Char) : Bool :=
  pictographs.contains c && last == zeroWidthJoiner &&
    (before.dropWhile isAttached).head?.any pictographs.contains

/-- Flag letters go in pairs. -/
def joinsFlag (run : List Char) (c : Char) : Bool :=
  isFlagLetter c && (run.takeWhile isFlagLetter).length % 2 == 1

/-- Whether a character joins the cluster that ends in `last`, with `before` in front of it. -/
def joins (last : Char) (before : List Char) (c : Char) : Bool :=
  if controls.contains last || controls.contains c then last == '\r' && c == '\n'
  else
    isAttached c || c == zeroWidthJoiner || spacingMarks.contains c || prepended.contains last ||
      joinsSyllable last c || joinsConjunct (last :: before) c || joinsPictograph last before c ||
      joinsFlag (last :: before) c

/-! ## Cutting a text -/

/-- The clusters of a text whose first cluster has begun. -/
def clustersFrom (last : Char) (before : List Char) : List Char → List (List Char)
  | [] => [(last :: before).reverse]
  | c :: cs =>
    if joins last before c then clustersFrom c (last :: before) cs
    else (last :: before).reverse :: clustersFrom c [] cs

def clusters : List Char → List (List Char)
  | [] => []
  | c :: cs => clustersFrom c [] cs

theorem flatten_clustersFrom (last : Char) (before cs : List Char) :
    (clustersFrom last before cs).flatten = (last :: before).reverse ++ cs := by
  induction cs generalizing last before with
  | nil => simp [clustersFrom]
  | cons c cs ih => unfold clustersFrom; split <;> simp [ih]

/-- Cutting loses nothing. -/
theorem flatten_clusters (cs : List Char) : (clusters cs).flatten = cs := by
  cases cs with
  | nil => rfl
  | cons c cs => simp [clusters, flatten_clustersFrom]

theorem ne_nil_of_mem_clustersFrom {last : Char} {before cs k : List Char}
    (h : k ∈ clustersFrom last before cs) : k ≠ [] := by
  induction cs generalizing last before with
  | nil => rintro rfl; simp [clustersFrom] at h
  | cons c cs ih =>
    unfold clustersFrom at h
    split at h
    · exact ih h
    · rcases List.mem_cons.mp h with rfl | h
      · simp
      · exact ih h

/-- No cluster is empty. -/
theorem ne_nil_of_mem_clusters {cs k : List Char} (h : k ∈ clusters cs) : k ≠ [] := by
  cases cs with
  | nil => cases h
  | cons c cs => exact ne_nil_of_mem_clustersFrom h

end MonkeyLang.Text
