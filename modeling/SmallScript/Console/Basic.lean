import SmallScript.Console.Entry
import SmallScript.Session

namespace SmallScript

structure Console where
  session : Session
  pending : String
  errors : String
  isClosed : Bool

namespace Console

def exitCommand : String := ".exit"

def banner : String :=
  "jsrs (a small JavaScript interpreter) v0.1.0\nType '" ++ exitCommand ++ "' to quit\n\n"

def farewell : String := "exit\n"

def start (s : Session) : Console :=
  ⟨(s.setInteractive true).print banner, "", "", false⟩

def splitEnd (line : String) : String × String :=
  match line.toList.reverse with
  | '\n' :: '\r' :: r => (String.ofList r.reverse, "\r\n")
  | '\n' :: r => (String.ofList r.reverse, "\n")
  | _ => (line, "")

def runEntry (host : Host) (fuel : Nat) (entry : String) (c : Console) : Console :=
  let trimmed := Text.trim entry.toList
  if trimmed = exitCommand.toList then { c with isClosed := true }
  else if trimmed = [] then c
  else
    match c.session.eval host fuel (complete entry) with
    | .done _ session => { c with session }
    | .fail e session =>
      { c with session, errors := c.errors ++ e.message session.state.memory ++ "\n" }
    | .exhausted => { c with isClosed := true }

def feed (host : Host) (fuel : Nat) (c : Console) (line : String) : Console :=
  if c.isClosed then c
  else
    let (entry, lineEnd) := splitEnd (c.pending ++ line)
    if continues entry then { c with pending := entry ++ lineEnd }
    else runEntry host fuel entry { c with pending := "" }

/-- Ends the session where the lines end; an entry that is not finished is dropped. -/
def finish (c : Console) : Console :=
  if c.isClosed then c
  else { c with session := c.session.print farewell, isClosed := true }

def linesOf (s : List Char) : List String :=
  match s.foldr step [] with
  | [] => []
  | lines => lines.map String.ofList
where
  step (c : Char) : List (List Char) → List (List Char)
    | [] => [[c]]
    | l :: ls => if c = '\n' then [c] :: l :: ls else (c :: l) :: ls

def feedAll (host : Host) (fuel : Nat) (c : Console) (text : String) : Console :=
  ((linesOf text.toList).foldl (feed host fuel) c).finish

end Console

end SmallScript
