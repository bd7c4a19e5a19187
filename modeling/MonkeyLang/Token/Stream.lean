/-
One text read token by token through two doors. Pulling hands out the token for the end again and
again; stepping hands it out once and then reports that it is done. Both share one position.
-/
import MonkeyLang.Token.Scan

namespace MonkeyLang.Token

structure Stream where
  reader : Reader
  /-- Stepping has handed out the token for the end. -/
  ended : Bool

namespace Stream

def ofString (source : String) : Stream := ⟨Reader.ofString source, false⟩

/-- The next token; at the end, the token for the end without moving. -/
def pull (s : Stream) : Token × Stream :=
  match s.reader.next? with
  | some (t, reader) => (t, { s with reader })
  | none => (endAt s.reader.finish, s)

/-- The next token, or `none` once stepping itself has handed out the token for the end. -/
def step (s : Stream) : Option Token × Stream :=
  if s.ended then (none, s)
  else
    let (t, s) := s.pull
    (some t, { s with ended := t.kind == .endOfInput })

/-- The two doors. -/
inductive Door where
  | pull
  | step
deriving DecidableEq, Repr

def take (s : Stream) : Door → Option Token × Stream
  | .pull => let (t, s) := s.pull; (some t, s)
  | .step => s.step

/-- The answers to a sequence of requests, in order. -/
def takeAll (s : Stream) : List Door → List (Option Token)
  | [] => []
  | d :: ds => let (t, s) := s.take d; t :: s.takeAll ds

end Stream

end MonkeyLang.Token
