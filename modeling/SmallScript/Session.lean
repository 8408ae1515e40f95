import SmallScript.Eval.Program

namespace SmallScript

structure Session where
  global : FrameRef
  /-- With the names declared at the top level by the programs accepted so far. -/
  analyzer : Early.Analyzer
  interactive : Bool
  state : State

namespace Session

def initialState : State := ⟨Memory.empty, "", 0, 0⟩

def openIn (s : State) (interactive : Bool) : Session :=
  let (global, memory) := s.memory.newGlobal
  ⟨global, Early.Analyzer.new, interactive, { s with memory }⟩

def start (interactive : Bool) : Session := openIn initialState interactive

def setInteractive (isOn : Bool) (s : Session) : Session := { s with interactive := isOn }

/-- Fuel beyond what any run can use up in practice. -/
def abundantFuel : Nat := Nat.pow 2 60

/-- Writes the inspection form of a program's value, if the session echoes and there is one. -/
def echo (host : Host) (interactive : Bool) : Option Value → Effect Unit
  | none => return ()
  | some v => do
    if interactive then Effect.writeLine host (← Effect.look fun m => m.inspect v)

def runAccepted (host : Host) (E : Eval.Evaluator) (global : FrameRef) (interactive : Bool)
    (program : Program) : Effect Value := do
  let v ← Eval.run E global program
  echo host interactive v
  return v.getD .undefined

/-- Parses, analyzes and runs a text. The value of a program without one is `undefined`. -/
def evalWith (host : Host) (E : Eval.Evaluator) (source : String) (s : Session) :
    Outcome Session Value :=
  match Program.parse source with
  | .error e => .fail (.unparsable e) s
  | .ok program =>
    match Early.analyze program s.analyzer with
    | .error e analyzer => .fail (.early e) { s with analyzer }
    | .ok () analyzer =>
      match s with
      | ⟨global, _, interactive, state⟩ =>
        match runAccepted host E global interactive program state with
        | .done v state => .done v ⟨global, analyzer, interactive, state⟩
        | .fail e state => .fail e ⟨global, analyzer, interactive, state⟩
        | .exhausted => .exhausted

def eval (host : Host) (fuel : Nat) : String → Session → Outcome Session Value :=
  evalWith host (Eval.evaluator host fuel)

def print (s : Session) (text : String) : Session :=
  { s with state := { s.state with output := s.state.output ++ text } }

def takeOutput (s : Session) : String × Session :=
  (s.state.output, { s with state := { s.state with output := "" } })

end Session

end SmallScript
