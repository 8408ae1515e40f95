import SmallScript.Eval.Statement

namespace SmallScript.Eval

open Effect

def evaluator (host : Host) : Nat → Evaluator
  | 0 => ⟨0, fun _ _ _ => .exhausted, fun _ _ _ => .exhausted⟩
  | n + 1 =>
    ⟨n, fun f e s => evalExpr host (evaluator host n) f e s,
      fun f t s => evalStmt (evaluator host n) f t s⟩

def describeJump (m : Memory) : Completion → String
  | .broke => "Break"
  | .continued => "Continue"
  | .returned v => "Return(" ++ m.inspect v ++ ")"
  | .normal _ => "Normal"

def runStatements (E : Evaluator) (global : FrameRef) (program : Program) : Effect Completion := do
  hoistVars global program
  setDepth 0
  runBody E global program

def programResult : Completion → Effect (Option Value)
  | .normal v => return v
  | jump => do fail (.strayJump (← look fun m => describeJump m jump))

def run (E : Evaluator) (global : FrameRef) (program : Program) : Effect (Option Value) := do
  programResult (← runStatements E global program)

def runProgram (host : Host) (fuel : Nat) : FrameRef → Program → Effect (Option Value) :=
  run (evaluator host fuel)

end SmallScript.Eval
