/-
Commands, and how they are given as arguments on a command line. Flags stand anywhere behind the name
they belong to; after `--` every argument stands for itself.
-/

namespace MonkeyLang

inductive Command where
  /-- Run a source file. -/
  | run (file : String)
  /-- Print the program in a source file, as canonical text or as JSON. -/
  | parse (file : String) (json : Bool)
  /-- List the tokens of a source file. -/
  | tokens (file : String)
  /-- Start the interactive loop. -/
  | repl
deriving DecidableEq, Repr, Inhabited

namespace Command

/-- The file that a command reads. -/
def file? : Command → Option String
  | run file | parse file _ | tokens file => some file
  | repl => none

/-- The names of commands. -/
inductive Name where
  | run
  | parse
  | tokens
  | repl
deriving DecidableEq, Repr

namespace Name

def ofText? (s : String) : Option Name :=
  if s = "run" then some run
  else if s = "parse" then some parse
  else if s = "tokens" then some tokens
  else if s = "repl" then some repl
  else none

/-- All commands but the interactive loop take a file. -/
def takesFile : Name → Bool
  | repl => false
  | _ => true

end Name

/-- What the arguments ask for. -/
inductive Request where
  /-- Help on a command, or on the whole. -/
  | help (about : Option Name)
  | version
  | execute (command : Command)
deriving DecidableEq, Repr, Inhabited

/-- The letters of an argument such as `-V`; a lone dash is no such argument. -/
def shortFlags? (arg : String) : Option (List Char) :=
  match arg.toList with
  | '-' :: '-' :: _ => none
  | '-' :: c :: cs => some (c :: cs)
  | _ => none

def isLongFlag (arg : String) : Bool := "--".isPrefixOf arg

/-- What was said behind the name of a command. -/
structure Options where
  noColor : Bool
  json : Bool
  file : Option String
deriving DecidableEq, Repr, Inhabited

namespace Options

/-- Nothing was said yet. -/
def start : Options := ⟨false, false, none⟩

/-- A file may be named once, where one is asked for, and not by an empty text. -/
def addFile? (o : Options) (name : Name) (arg : String) : Option Options :=
  if name.takesFile && o.file.isNone && arg ≠ "" then some { o with file := some arg }
  else none

def addFiles? (o : Options) (name : Name) : List String → Option Options
  | [] => some o
  | arg :: args => (o.addFile? name arg).bind fun o => o.addFiles? name args

/-- The command, if all that it needs was said. -/
def command? (o : Options) : Name → Option Command
  | .run => o.file.map Command.run
  | .parse => o.file.map fun f => Command.parse f o.json
  | .tokens => o.file.map Command.tokens
  | .repl => some .repl

end Options

/-- The request of the arguments behind the name of a command. A flag may be given once. -/
def Request.ofOptions? (name : Name) (o : Options) : List String → Option Request
  | [] => (o.command? name).map Request.execute
  | arg :: args =>
    if arg = "--" then
      (o.addFiles? name args).bind fun o => (o.command? name).map Request.execute
    else if arg = "--help" then some (.help name)
    else if arg = "--no-color" then
      if o.noColor then none else ofOptions? name { o with noColor := true } args
    else if arg = "--json" && name = .parse then
      if o.json then none else ofOptions? name { o with json := true } args
    else if isLongFlag arg then none
    else
      match shortFlags? arg with
      | some ('h' :: _) => some (.help name)
      | some _ => none
      | none => (o.addFile? name arg).bind fun o => ofOptions? name o args

/-- Help is given on the whole, or on one command. -/
def Request.ofHelp? : List String → Option Request
  | [] => some (.help none)
  | [arg] =>
    if arg = "help" then some (.help none)
    else (Name.ofText? arg).map fun name => .help (some name)
  | _ => none

/-- The request of a whole command line, `none` if it makes no sense. Without a command, the
interactive loop is meant. -/
def Request.ofArgs? (noColor : Bool) : List String → Option Request
  | [] => some (.execute .repl)
  | arg :: args =>
    if arg = "--" then if args.isEmpty then some (.execute .repl) else none
    else if arg = "--help" then some (.help none)
    else if arg = "--version" then some .version
    else if arg = "--no-color" then if noColor then none else ofArgs? true args
    else if isLongFlag arg then none
    else
      match shortFlags? arg with
      | some ('h' :: _) => some (.help none)
      | some ('V' :: _) => some .version
      | some _ => none
      | none =>
        if arg = "help" then ofHelp? args
        else (Name.ofText? arg).bind fun name => ofOptions? name .start args

end Command

end MonkeyLang
