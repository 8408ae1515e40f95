import SmallScript.Conformance.Folder
import SmallScript.Console.Basic

namespace SmallScript.CommandLine

structure Options where
  file : Option String
  code : Option String
  tests : Option String
  interactive : Bool
  debug : Bool
  maxDepth : Option Nat

def Options.initial : Options := ⟨none, none, none, false, false, none⟩

inductive Stop where
  | usage
  | version
  | help
  deriving DecidableEq

inductive Valued where
  | code
  | tests
  | maxDepth

inductive Flag where
  | interactive
  | debug
  | version
  | help

inductive Switch where
  | valued (v : Valued)
  | flag (f : Flag)

def long? : String → Option Switch
  | "eval" => some (.valued .code)
  | "test" => some (.valued .tests)
  | "max-call-depth" => some (.valued .maxDepth)
  | "interactive" => some (.flag .interactive)
  | "debug" => some (.flag .debug)
  | "version" => some (.flag .version)
  | "help" => some (.flag .help)
  | _ => none

def short? : Char → Option Switch
  | 'e' => some (.valued .code)
  | 't' => some (.valued .tests)
  | 'i' => some (.flag .interactive)
  | 'd' => some (.flag .debug)
  | 'V' => some (.flag .version)
  | 'h' => some (.flag .help)
  | _ => none

def natOf? (s : String) : Option Nat :=
  let ds := match s.toList with
    | '+' :: r => r
    | cs => cs
  if ds ≠ [] ∧ ds.all Lexical.isDigit then
    let n := Lexical.numberOf 10 ds
    if n < Nat.pow 2 64 then some n else none
  else none

def pathOf? (s : String) : Option String := if s = "" then none else some s

def once {α : Type} (old new : Option α) : Except Stop (Option α) :=
  match old, new with
  | none, some a => .ok (some a)
  | _, _ => .error .usage

def setFile (o : Options) (s : String) : Except Stop Options := do
  return { o with file := ← once o.file (pathOf? s) }

def setValue (o : Options) (s : String) : Valued → Except Stop Options
  | .code => do return { o with code := ← once o.code (some s) }
  | .tests => do return { o with tests := ← once o.tests (pathOf? s) }
  | .maxDepth => do return { o with maxDepth := ← once o.maxDepth (natOf? s) }

def setFlag (o : Options) : Flag → Except Stop Options
  | .interactive => if o.interactive then .error .usage else .ok { o with interactive := true }
  | .debug => if o.debug then .error .usage else .ok { o with debug := true }
  | .version => .error .version
  | .help => .error .help

def isValue (s : String) : Bool := s == "-" || !s.startsWith "-"

abbrev Waiting := Option Valued

/-- Short options in one argument. The first that takes a value has the rest of it attached. -/
def readShort (o : Options) : List Char → Except Stop (Options × Waiting)
  | [] => return (o, none)
  | c :: cs =>
    match short? c with
    | none => throw .usage
    | some (.flag f) => do readShort (← setFlag o f) cs
    | some (.valued v) =>
      match cs with
      | [] => return (o, some v)
      | '=' :: cs => do return (← setValue o (String.ofList cs) v, none)
      | cs => do return (← setValue o (String.ofList cs) v, none)

/-- A long option, with the value behind its equals sign if it has one. -/
def readLong (o : Options) (body : List Char) : Except Stop (Options × Waiting) :=
  let name := String.ofList (body.takeWhile (· != '='))
  match long? name, body.dropWhile (· != '=') with
  | some (.valued v), _ :: value => do return (← setValue o (String.ofList value) v, none)
  | some (.valued v), [] => return (o, some v)
  | some (.flag f), [] => do return (← setFlag o f, none)
  | _, _ => throw .usage

def readArgument (o : Options) (s : String) : Except Stop (Options × Waiting) :=
  match s.toList with
  | '-' :: '-' :: body => readLong o body
  | '-' :: c :: cs => readShort o (c :: cs)
  | _ => do return (← setFile o s, none)

def readAll (o : Options) : Waiting → List String → Except Stop Options
  | none, [] => return o
  | some _, [] => throw .usage
  | some v, s :: rest =>
    if isValue s then do readAll (← setValue o s v) none rest else throw .usage
  | none, s :: rest =>
    if s = "--" then rest.foldlM setFile o
    else do
      let (o, waiting) ← readArgument o s
      readAll o waiting rest

def Options.conflict (o : Options) : Bool :=
  (o.code.isSome && o.file.isSome)
    || (o.tests.isSome && (o.file.isSome || o.code.isSome || o.interactive))

def readOptions (args : List String) : Except Stop Options := do
  let o ← readAll .initial none args
  if o.conflict then throw .usage else return o

inductive Task where
  | tests (path : String)
  | code (source : String) (thenConsole : Bool)
  | file (path : String) (thenConsole : Bool)
  | console

def Options.task (o : Options) : Task :=
  match o.tests, o.code, o.file with
  | some path, _, _ => .tests path
  | none, some source, _ => .code source o.interactive
  | none, none, some path => .file path o.interactive
  | none, none, none => .console

def Task.path? : Task → Option String
  | tests path | file path _ => some path
  | code .. | console => none

def defaultDepth : Nat := 512

def Options.host (o : Options) : Host := ⟨o.maxDepth.getD defaultDepth, fun _ => none⟩

inductive Progress where
  | failed (output : String) (e : Failure)
  | finished (output : String)
  | reading (c : Console)

def runSource (host : Host) (fuel : Nat) (source : String) (thenConsole : Bool) : Progress :=
  match (Session.start false).eval host fuel source with
  | .fail e s => .failed s.state.output ⟨e.message s.state.memory, []⟩
  | .done _ s => if thenConsole then .reading (Console.start s) else .finished s.state.output
  | .exhausted => .failed "" ⟨"evaluation did not come to an end", []⟩

def Task.run (host : Host) (fuel : Nat) (found : Except FileError FileTree) : Task → Progress
  | tests path =>
    match Conformance.runFolder host.maxDepth path found with
    | .ok r => .finished r.text
    | .error e => .failed "" e
  | code source thenConsole => runSource host fuel source thenConsole
  | file path thenConsole =>
    match FileTree.read found with
    | .ok source => runSource host fuel source thenConsole
    | .error e => .failed "" ⟨"Failed to read " ++ path, [e.message]⟩
  | console => .reading (Console.start (Session.start false))

structure Result where
  code : UInt8
  output : String
  errors : String
  deriving DecidableEq

def versionText : String := "jsrs 0.1.0\n"

def usageText : String :=
  "Usage: jsrs [OPTIONS] [FILE]\n\n"
    ++ "  -e, --eval CODE          evaluate CODE instead of a file\n"
    ++ "  -t, --test DIR           run every .js file under DIR as a conformance test\n"
    ++ "  -i, --interactive        enter the console after running a script\n"
    ++ "  -d, --debug              show debug output\n"
    ++ "      --max-call-depth N   maximum depth of nested calls\n"

def Stop.result : Stop → Result
  | usage => ⟨2, "", usageText⟩
  | version => ⟨0, versionText, ""⟩
  | help => ⟨0, usageText, ""⟩

def run (t : FileTree) (args : List String) (input : String) : Result :=
  match readOptions args with
  | .error stop => stop.result
  | .ok o =>
    let task := o.task
    let found := match task.path? with
      | some path => t.find path
      | none => .error .notFound
    match task.run o.host Session.abundantFuel found with
    | .failed output e => ⟨1, output, e.report⟩
    | .finished output => ⟨0, output, ""⟩
    | .reading c =>
      let c := c.feedAll o.host Session.abundantFuel input
      ⟨0, c.session.state.output, c.errors⟩

end SmallScript.CommandLine
