/-
Carrying out commands. Files are read through a function, and standard input is a list of lines, so
that a run depends on nothing else.
-/
import MonkeyLang.Command.Basic
import MonkeyLang.Program.Json
import MonkeyLang.Program.Text
import MonkeyLang.Repl

namespace MonkeyLang.Command

/-- Why a source file could not be read. -/
inductive FileError where
  | missing
  | notADirectory
  | isADirectory
  | notText
deriving DecidableEq, Repr, Inhabited

def FileError.message : FileError → String
  | missing => "No such file or directory (os error 2)"
  | notADirectory => "Not a directory (os error 20)"
  | isADirectory => "Is a directory (os error 21)"
  | notText => "stream did not contain valid UTF-8"

/-- What a command leaves behind: the exit code and the two output streams. -/
structure Outcome where
  exit : Nat
  transcript : Transcript
deriving DecidableEq, Repr, Inhabited

namespace Outcome

def success (t : Transcript) : Outcome := ⟨0, t⟩

def failure (t : Transcript) : Outcome := ⟨1, t⟩

/-- The command line made no sense. -/
def rejected : Outcome := ⟨2, .ofError "Error: invalid command line\n"⟩

end Outcome

def versionText : String := "monkey 0.1.0\n"

/-- A block of help: a heading and its indented lines. -/
def helpBlock (heading : String) (lines : List String) : String :=
  "\n" ++ heading ++ ":\n" ++ String.join (lines.map fun l => "  " ++ l ++ "\n")

def noColorHelp : String := "    --no-color  Disable colored diagnostics"

def helpFlagHelp : String := "-h, --help      Print help"

def generalHelp : String :=
  "Monkey language interpreter\n\nUsage: monkey [OPTIONS] [COMMAND]\n" ++
  helpBlock "Commands" [
    "run     Run a Monkey source file",
    "parse   Parse and print the program (debug)",
    "tokens  Tokenize and dump tokens (debug)",
    "repl    Start the interactive REPL (default)",
    "help    Print this message or the help of the given subcommand(s)"] ++
  helpBlock "Options" [noColorHelp, helpFlagHelp, "-V, --version   Print version"]

def Name.help : Name → String
  | run =>
    "Run a Monkey source file\n\nUsage: monkey run [OPTIONS] <FILE>\n" ++
    helpBlock "Arguments" ["<FILE>  Source file to run"] ++
    helpBlock "Options" [noColorHelp, helpFlagHelp]
  | parse =>
    "Parse and print the program (debug)\n\nUsage: monkey parse [OPTIONS] <FILE>\n" ++
    helpBlock "Arguments" ["<FILE>  Source file to parse"] ++
    helpBlock "Options" [
      "    --json      Dump the AST as JSON instead of the canonical form", noColorHelp, helpFlagHelp]
  | tokens =>
    "Tokenize and dump tokens (debug)\n\nUsage: monkey tokens [OPTIONS] <FILE>\n" ++
    helpBlock "Arguments" ["<FILE>  Source file to tokenize"] ++
    helpBlock "Options" [noColorHelp, helpFlagHelp]
  | repl =>
    "Start the interactive REPL (default)\n\nUsage: monkey repl [OPTIONS]\n" ++
    helpBlock "Options" [noColorHelp, helpFlagHelp]

/-- Runs a source text: null is not printed, and an error goes to the error stream. -/
def runText (depth : Nat) (file source : String) : Option Outcome := do
  let (outcome, m) ← Machine.initial.runSource depth source
  match outcome with
  | .error errors => return .failure (.ofReports file errors)
  | .ok .null => return .success (.ofText m.output)
  | .ok (.error e) =>
    return .failure (.ofText m.output ++ .ofError (m.store.text (.error e) ++ "\n"))
  | .ok v => return .success (.ofText (m.output ++ m.store.text v ++ "\n"))

def parseText (file : String) (json : Bool) (source : String) : Outcome :=
  let parsed := MonkeyLang.parse source
  if parsed.errors.isEmpty then
    let text := if json then parsed.program.toJson.text else parsed.program.text
    .success (.ofText (text ++ "\n"))
  else
    .failure (.ofReports file parsed.errors)

def tokensText (source : String) : Outcome :=
  .success (.ofText (String.join ((Token.tokenize source).map fun t => t.text ++ "\n")))

/-- Reads a source file, which must be UTF-8. -/
def readSource (read : String → Except FileError (List UInt8)) (file : String) :
    Except FileError String :=
  match read file with
  | .error e => .error e
  | .ok bytes =>
    match Text.decode? bytes with
    | some source => .ok source
    | none => .error .notText

/-- Goes on with the text of a source file, or fails. -/
def withSource (read : String → Except FileError (List UInt8)) (file : String)
    (next : String → Option Outcome) : Option Outcome :=
  match readSource read file with
  | .ok source => next source
  | .error e => some (.failure (.ofError ("Error: " ++ e.message ++ "\n")))

/-- Carries out a command. -/
def execute (depth : Nat) (read : String → Except FileError (List UInt8))
    (lines : List (Option String)) : Command → Option Outcome
  | .run file => withSource read file (runText depth file)
  | .parse file json => withSource read file fun source => some (parseText file json source)
  | .tokens file => withSource read file fun source => some (tokensText source)
  | .repl => (Repl.run depth lines).map Outcome.success

/-- Carries out what the arguments ask for. -/
def executeArgs (depth : Nat) (read : String → Except FileError (List UInt8))
    (lines : List (Option String)) (args : List String) : Option Outcome :=
  match Request.ofArgs? false args with
  | none => some .rejected
  | some (.help about) => some (.success (.ofText ((about.map Name.help).getD generalHelp)))
  | some .version => some (.success (.ofText versionText))
  | some (.execute c) => c.execute depth read lines

end MonkeyLang.Command
