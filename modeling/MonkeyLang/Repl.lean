/-
The interactive loop: each line is a command or a source text, and what it binds is there for the
lines after it. What it leaves behind on the two output streams is a transcript.
-/
import MonkeyLang.Session
import MonkeyLang.Text.Line

namespace MonkeyLang

/-! ## Transcripts -/

structure Transcript where
  stdout : String
  stderr : String
  /-- How many parse errors were reported on the error stream. -/
  reports : Nat
deriving DecidableEq, Repr, Inhabited

namespace Transcript

def empty : Transcript := ⟨"", "", 0⟩

/-- A text printed on the output stream. -/
def ofText (s : String) : Transcript := ⟨s, "", 0⟩

/-- A message on the error stream. -/
def ofError (s : String) : Transcript := ⟨"", s, 0⟩

/-- The report of a parse error in a named source. -/
def reportText (source : String) (e : ParseError) : String :=
  "Error: Parse error\n  " ++ source ++ " @ " ++ e.span.text ++ ": " ++ e.message ++ "\n"

/-- One report for each parse error. -/
def ofReports (source : String) (errors : List ParseError) : Transcript :=
  ⟨"", String.join (errors.map (reportText source)), errors.length⟩

/-- One transcript after another. -/
def append (a b : Transcript) : Transcript :=
  ⟨a.stdout ++ b.stdout, a.stderr ++ b.stderr, a.reports + b.reports⟩

instance : Append Transcript := ⟨append⟩

def join (ts : List Transcript) : Transcript := ts.foldl (· ++ ·) empty

end Transcript

namespace Repl

/-! ## Lines -/

/-- What a line asks for. -/
inductive Request where
  | nothing
  | quit
  | help
  | listing
  | unknown (command : String)
  | source (text : String)
deriving DecidableEq, Repr, Inhabited

/-- A line asks by its trimmed text; commands start with a colon. -/
def Request.ofLine (line : String) : Request :=
  let text := Text.trim line
  match text.toList with
  | [] => nothing
  | ':' :: _ =>
    if text = ":quit" ∨ text = ":q" ∨ text = ":exit" then quit
    else if text = ":help" ∨ text = ":h" ∨ text = ":?" then help
    else if text = ":env" then listing
    else unknown text
  | _ => source text

def banner : String := "Monkey REPL v0.1.0\nType :help for help, :quit to exit.\n\n"

def farewell : String := "Goodbye!\n"

def helpText : String :=
  "Monkey REPL Commands:\n" ++
  "  :help, :h, :?   Show this help\n" ++
  "  :quit, :q       Exit the REPL\n" ++
  "  :env            List global bindings\n" ++
  "\n" ++
  "Bindings persist between lines, e.g.\n" ++
  "  let add = fn(a, b) \x7b a + b \x7d;\n" ++
  "  add(1, 2)\n" ++
  "\n" ++
  "Built-in functions: " ++ ", ".intercalate (Builtin.all.map Builtin.name) ++ "\n"

/-- The global bindings, one a line. -/
def listingText (m : Machine) : String :=
  String.join ((m.listing Store.global).map fun (name, text) => name ++ " = " ++ text ++ "\n")

/-- The name under which parse errors of a line are reported. -/
def sourceName : String := "<repl>"

/-- Runs a line as a program: what it prints comes before the text of its value. -/
def evaluate (depth : Nat) (m : Machine) (source : String) : Option (Transcript × Machine) := do
  let (outcome, m) ← m.runSource depth source
  let (printed, m) := m.takeOutput
  match outcome with
  | .ok v => return (.ofText (printed ++ m.store.text v ++ "\n"), m)
  | .error errors => return (.ofReports sourceName errors, m)

/-- The answer to a request, and the machine behind it. -/
def respond (depth : Nat) (m : Machine) : Request → Option (Transcript × Machine)
  | .nothing => some (.empty, m)
  | .quit => some (.ofText farewell, m)
  | .help => some (.ofText helpText, m)
  | .listing => some (.ofText (listingText m), m)
  | .unknown command =>
    some (.ofText ("Unknown command: " ++ command ++ "\nType :help for help.\n"), m)
  | .source text => evaluate depth m text

/-- The answers to lines, in order, and the machine at the end. A line that asks to quit is the last
to be answered. -/
def answers (depth : Nat) (m : Machine) : List String → Option (List Transcript × Machine)
  | [] => some ([], m)
  | line :: lines => do
    let request := Request.ofLine line
    let (t, m) ← respond depth m request
    if request = .quit then
      return ([t], m)
    else
      let (ts, m) ← answers depth m lines
      return (t :: ts, m)

/-- How the loop ends after its last line, unless a line asked to quit: a line that is no text is an
error, and at the end of the input the loop takes its leave. -/
def closing (lines : List (Option String)) : Transcript :=
  let texts := (lines.takeWhile Option.isSome).filterMap id
  if texts.any fun l => Request.ofLine l == .quit then .empty
  else if lines.all Option.isSome then .ofText farewell
  else .ofError "Error: stream did not contain valid UTF-8\n"

/-- The whole loop on the lines of an input, `none` for a line that is no text. -/
def run (depth : Nat) (lines : List (Option String)) : Option Transcript := do
  let texts := (lines.takeWhile Option.isSome).filterMap id
  let (ts, _) ← answers depth .initial texts
  return .ofText banner ++ Transcript.join ts ++ closing lines

end Repl

end MonkeyLang
