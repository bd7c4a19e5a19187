/-
A session: programs run one after another on the same machine, in its global scope, so that what one
of them binds is there for the next.
-/
import MonkeyLang.Eval.Expression
import MonkeyLang.Parse.Expression

namespace MonkeyLang.Machine

/-- A depth that no run can reach in the memory of a computer. -/
def depthLimit : Nat := 1000000000000

/-- Runs a program in the global scope. -/
def runProgram (m : Machine) (depth : Nat) (p : Program) : Option (Value × Machine) :=
  m.runIn depth Store.global p

/-- Runs a source text; with any error in it, nothing is evaluated. -/
def runSource (m : Machine) (depth : Nat) (source : String) :
    Option (Except (List ParseError) Value × Machine) :=
  let parsed := parse source
  if parsed.errors.isEmpty then
    (m.runProgram depth parsed.program).map fun (v, m) => (.ok v, m)
  else
    some (.error parsed.errors, m)

/-- The value of a global name. -/
def binding? (m : Machine) (name : String) : Option Value := m.store.lookup Store.global name

/-- The bindings of a scope in the order of their names, with the text of each value. -/
def listing (m : Machine) (scope : FrameRef) : List (String × String) :=
  (m.store.locals scope).map fun (name, v) => (name, m.store.text v)

/-- What was printed so far, and the machine with nothing printed. -/
def takeOutput (m : Machine) : String × Machine := (m.output, { m with output := "" })

end MonkeyLang.Machine
