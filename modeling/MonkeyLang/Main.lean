/-
The command line: reads files and standard input, and writes what the commands leave behind.
-/
import MonkeyLang.Command.Execute

namespace MonkeyLang.Command

def readFile (file : String) : IO (Except FileError (List UInt8)) := do
  try
    let bytes ← IO.FS.readBinFile file
    return .ok bytes.data.toList
  catch
    | .noFileOrDirectory .. => return .error .missing
    | .inappropriateType _ code _ =>
      return .error (if code = 21 then .isADirectory else .notADirectory)
    | _ => return .error .missing

def present (t : Transcript) : IO Unit := do
  let out ← IO.getStdout
  out.putStr t.stdout
  out.flush
  (← IO.getStderr).putStr t.stderr

/-- The bytes up to a line feed, that one included; none at the end of the input. -/
partial def readLine (input : IO.FS.Stream) (begun : List UInt8) : IO (List UInt8) := do
  let bytes ← input.read 1
  match bytes.data.toList with
  | [] => return begun.reverse
  | b :: _ => if b = 0x0a then return (b :: begun).reverse else readLine input (b :: begun)

/-- Answers line after line. -/
partial def loop (input : IO.FS.Stream) (m : Machine) : IO Unit := do
  let lines := Text.inputLines (← readLine input [])
  match lines with
  | some line :: _ =>
    let request := Repl.Request.ofLine line
    match Repl.respond Machine.depthLimit m request with
    | some (t, m) =>
      present t
      if request ≠ .quit then loop input m
    | none => return
  | _ => present (Repl.closing lines)

def start (request : Option Request) (args : List String) : IO UInt32 := do
  match request with
  | some (.execute .repl) =>
    present (.ofText Repl.banner)
    loop (← IO.getStdin) .initial
    return 0
  | _ =>
    let content ←
      match request with
      | some (.execute c) =>
        match c.file? with
        | some file => readFile file
        | none => pure (.error .missing)
      | _ => pure (.error .missing)
    match executeArgs Machine.depthLimit (fun _ => content) [] args with
    | some outcome =>
      present outcome.transcript
      return outcome.exit.toUInt32
    | none => return 1

end MonkeyLang.Command

def main (args : List String) : IO UInt32 :=
  MonkeyLang.Command.start (MonkeyLang.Command.Request.ofArgs? false args) args
