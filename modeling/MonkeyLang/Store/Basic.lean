/-
The store: scopes, arrays, hashes and closures, each in a table that only grows. A reference is a
place in its table. Arrays can be appended to and scopes can be bound in; hashes and closures stay as
they were made.
-/
import MonkeyLang.Value.Basic

namespace MonkeyLang

/-! ## Bindings -/

/-- The bindings of one scope, kept in the order of their names. A name is bound once; binding it again
replaces its value. -/
abbrev Bindings := List (String × Value)

namespace Bindings

def define (name : String) (v : Value) : Bindings → Bindings
  | [] => [(name, v)]
  | (n, w) :: rest =>
    if name = n then (name, v) :: rest
    else if name < n then (name, v) :: (n, w) :: rest
    else (n, w) :: define name v rest

def get? (name : String) : Bindings → Option Value
  | [] => none
  | (n, v) :: rest => if name = n then some v else get? name rest

theorem get?_define_self (name : String) (v : Value) (b : Bindings) :
    get? name (define name v b) = some v := by
  fun_induction define name v b <;> simp_all [get?]

theorem get?_define_of_ne {name other : String} (h : other ≠ name) (v : Value) (b : Bindings) :
    get? other (define name v b) = get? other b := by
  fun_induction define name v b <;> simp_all [get?]

theorem get?_define (name other : String) (v : Value) (b : Bindings) :
    get? other (define name v b) = if other = name then some v else get? other b := by
  split
  · next h => rw [h, get?_define_self]
  · next h => exact get?_define_of_ne h v b

end Bindings

/-! ## Hashes -/

/-- The key as it was given, and the value found under it. -/
structure HashPair where
  key : Value
  value : Value
deriving DecidableEq, Repr, Inhabited

/-- Pairs in the order in which their keys first came in. A later pair with the same key takes the place of
the earlier one, key and value both. -/
structure Hash where
  entries : List (HashKey × HashPair)
deriving DecidableEq, Repr, Inhabited

namespace Hash

def empty : Hash := ⟨[]⟩

def size (h : Hash) : Nat := h.entries.length

def insertEntry (k : HashKey) (p : HashPair) : List (HashKey × HashPair) → List (HashKey × HashPair)
  | [] => [(k, p)]
  | (l, q) :: rest => if k = l then (k, p) :: rest else (l, q) :: insertEntry k p rest

def insert (h : Hash) (k : HashKey) (p : HashPair) : Hash := ⟨insertEntry k p h.entries⟩

def findEntry (k : HashKey) : List (HashKey × HashPair) → Option HashPair
  | [] => none
  | (l, p) :: rest => if k = l then some p else findEntry k rest

def get? (h : Hash) (k : HashKey) : Option HashPair := findEntry k h.entries

def pairs (h : Hash) : List HashPair := h.entries.map Prod.snd

@[simp] theorem get?_empty (k : HashKey) : empty.get? k = none := rfl

theorem get?_insert (h : Hash) (k l : HashKey) (p : HashPair) :
    (h.insert k p).get? l = if l = k then some p else h.get? l := by
  simp only [get?, insert]
  fun_induction insertEntry k p h.entries <;> grind [findEntry]

theorem keys_insert (h : Hash) (k : HashKey) (p : HashPair) :
    (h.insert k p).entries.map Prod.fst =
      if k ∈ h.entries.map Prod.fst then h.entries.map Prod.fst
      else h.entries.map Prod.fst ++ [k] := by
  simp only [insert]
  fun_induction insertEntry k p h.entries <;> grind

end Hash

/-! ## Stores -/

/-- A scope: its own bindings and the scope around it. -/
structure Frame where
  bindings : Bindings
  outer : Option FrameRef
deriving DecidableEq, Repr, Inhabited

/-- A function literal together with the scope it was made in. -/
structure Closure where
  params : List String
  body : List Stmt
  scope : FrameRef
deriving DecidableEq, Inhabited

structure Store where
  frames : Array Frame
  arrays : Array (Array Value)
  hashes : Array Hash
  closures : Array Closure
deriving DecidableEq, Inhabited

namespace Store

/-- A store with the global scope and nothing else. -/
def initial : Store := ⟨#[⟨[], none⟩], #[], #[], #[]⟩

/-- The global scope. -/
def global : FrameRef := ⟨0⟩

/-! ## Making -/

def newFrame (s : Store) (outer : FrameRef) : FrameRef × Store :=
  (⟨s.frames.size⟩, { s with frames := s.frames.push ⟨[], some outer⟩ })

def newArray (s : Store) (elements : Array Value) : ArrayRef × Store :=
  (⟨s.arrays.size⟩, { s with arrays := s.arrays.push elements })

def newHash (s : Store) (h : Hash) : HashRef × Store :=
  (⟨s.hashes.size⟩, { s with hashes := s.hashes.push h })

def newClosure (s : Store) (c : Closure) : ClosureRef × Store :=
  (⟨s.closures.size⟩, { s with closures := s.closures.push c })

/-! ## Reading -/

def frame? (s : Store) (r : FrameRef) : Option Frame := s.frames[r.index]?

def elements (s : Store) (r : ArrayRef) : Array Value := s.arrays[r.index]?.getD #[]

def hash (s : Store) (r : HashRef) : Hash := s.hashes[r.index]?.getD .empty

def closure? (s : Store) (r : ClosureRef) : Option Closure := s.closures[r.index]?

/-- The bindings of a scope itself, in the order of their names. -/
def locals (s : Store) (r : FrameRef) : Bindings := ((s.frame? r).map Frame.bindings).getD []

/-- The value of a name in a scope or in one of the next `n` scopes around it. -/
def lookupWithin (s : Store) (name : String) : Nat → FrameRef → Option Value
  | 0, r => (s.locals r).get? name
  | n + 1, r =>
    match (s.locals r).get? name with
    | some v => some v
    | none => (s.frame? r).bind Frame.outer |>.bind (s.lookupWithin name n)

/-- The value of a name in the nearest scope that binds it. No chain of scopes is longer than the
table of scopes. -/
def lookup (s : Store) (r : FrameRef) (name : String) : Option Value :=
  s.lookupWithin name s.frames.size r

/-! ## Changing -/

/-- Binds a name in a scope, in that scope alone. -/
def define (s : Store) (r : FrameRef) (name : String) (v : Value) : Store :=
  { s with frames := s.frames.modify r.index fun f => { f with bindings := f.bindings.define name v } }

def append (s : Store) (r : ArrayRef) (v : Value) : Store :=
  { s with arrays := s.arrays.modify r.index fun a => a.push v }

theorem frame?_newFrame_eq (s : Store) (outer r : FrameRef) : (s.newFrame outer).2.frame? r =
    if r.index = s.frames.size then some ⟨[], some outer⟩ else s.frame? r :=
  Array.getElem?_push

theorem locals_define {s : Store} {r : FrameRef} (h : r.index < s.frames.size) (name : String)
    (v : Value) : (s.define r name v).locals r = (s.locals r).define name v := by
  simp [locals, frame?, define, Array.getElem_modify, h]

theorem frame?_define_of_ne {s : Store} {r r' : FrameRef} (h : r' ≠ r) (name : String) (v : Value) :
    (s.define r name v).frame? r' = s.frame? r' := by
  have hi : r.index ≠ r'.index := fun e => h (by cases r; cases r'; simp_all)
  simp [frame?, define, Array.getElem?_modify, hi]

theorem get?_locals_define (s : Store) (r q : FrameRef) (x y : String) (v : Value) :
    ((s.define r x v).locals q).get? y =
      if q = r ∧ (s.frame? r).isSome ∧ y = x then some v else (s.locals q).get? y := by
  by_cases hq : q = r
  · subst hq
    simp only [Store.locals, frame?, Store.define, Array.getElem?_modify]
    cases s.frames[q.index]? with
    | none => simp
    | some f => simp [Bindings.get?_define]
  · simp only [Store.locals, frame?_define_of_ne hq, hq, false_and, if_false]

theorem map_outer_define (s : Store) (r q : FrameRef) (x : String) (v : Value) :
    ((s.define r x v).frame? q).map Frame.outer = (s.frame? q).map Frame.outer := by
  simp only [frame?, Store.define, Array.getElem?_modify]
  split
  · simp [Function.comp_def]
  · rfl

theorem elements_append {s : Store} {r : ArrayRef} (h : r.index < s.arrays.size) (v : Value) :
    (s.append r v).elements r = (s.elements r).push v := by
  simp [elements, append, Array.getElem_modify, h]

theorem elements_append_of_ne {s : Store} {r r' : ArrayRef} (h : r' ≠ r) (v : Value) :
    (s.append r v).elements r' = s.elements r' := by
  have hi : r.index ≠ r'.index := fun e => h (by cases r; cases r'; simp_all)
  simp [elements, append, Array.getElem?_modify, hi]

end Store

end MonkeyLang
