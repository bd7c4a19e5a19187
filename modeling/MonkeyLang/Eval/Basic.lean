/-
The machine that programs run on, and the shape of an evaluation. An evaluation ends in a value or in
a signal, with the machine as it was left; or it is cut short when it would nest too deep, which is
all that separates a finite run from an endless one.
-/
import MonkeyLang.Eval.Operator
import MonkeyLang.Value.Outline

namespace MonkeyLang

structure Machine where
  store : Store
  /-- Everything that was printed. -/
  output : String
deriving DecidableEq, Inhabited

def Machine.initial : Machine := ⟨.initial, ""⟩

/-- Why an evaluation ended before its end. -/
inductive Signal where
  /-- A return on its way to the nearest call, or to the end of the program. -/
  | returned (v : Value)
  /-- An error on its way to the end of the program. -/
  | failed (e : RuntimeError)
deriving DecidableEq, Inhabited

/-- An evaluation; `none` if it was cut short. -/
def Eval (α : Type) : Type := Machine → Option (Except Signal α × Machine)

namespace Eval

variable {α β : Type}

@[inline] def run (e : Eval α) (m : Machine) : Option (Except Signal α × Machine) := e m

@[inline] protected def pure (a : α) : Eval α := fun m => some (.ok a, m)

@[inline] protected def bind (e : Eval α) (f : α → Eval β) : Eval β := fun m =>
  match e m with
  | some (.ok a, m) => f a m
  | some (.error s, m) => some (.error s, m)
  | none => none

instance : Monad Eval where
  pure := Eval.pure
  bind := Eval.bind

@[simp] theorem run_pure (a : α) (m : Machine) : (pure a : Eval α).run m = some (.ok a, m) := rfl

theorem run_bind (e : Eval α) (f : α → Eval β) (m : Machine) :
    (e >>= f).run m =
      match e.run m with
      | some (.ok a, m) => (f a).run m
      | some (.error s, m) => some (.error s, m)
      | none => none := rfl

theorem run_bind_ok {e : Eval α} {m m' : Machine} {a : α} (h : e.run m = some (.ok a, m'))
    (f : α → Eval β) : (e >>= f).run m = (f a).run m' := by
  rw [run_bind, h]

theorem run_bind_error {e : Eval α} {m m' : Machine} {s : Signal}
    (h : e.run m = some (.error s, m')) (f : α → Eval β) :
    (e >>= f).run m = some (.error s, m') := by
  rw [run_bind, h]

/-! ## Steps -/

/-- Cut short. -/
def tooDeep : Eval α := fun _ => none

def signal (s : Signal) : Eval α := fun m => some (.error s, m)

/-- An outcome that leaves the machine alone, an error becoming a signal. -/
def ofExcept : Except RuntimeError α → Eval α
  | .ok a => pure a
  | .error e => signal (.failed e)

/-- A change of the store that yields something. -/
def update (f : Store → α × Store) : Eval α := fun ⟨store, output⟩ =>
  let (a, store) := f store
  some (.ok a, ⟨store, output⟩)

def store : Eval Store := fun m => some (.ok m.store, m)

def define (scope : FrameRef) (name : String) (v : Value) : Eval Unit :=
  update fun s => ((), s.define scope name v)

/-- A call: a return inside becomes the value of the call. -/
def call (e : Eval Value) : Eval Value := fun m =>
  match e m with
  | some (.error (.returned v), m) => some (.ok v, m)
  | r => r

end Eval

end MonkeyLang
