namespace SmallScript

structure Failure where
  message : String
  causes : List String
  deriving DecidableEq

namespace Failure

def hang (n : Nat) (s : String) : String :=
  String.ofList (s.toList.flatMap fun c => if c = '\n' then c :: List.replicate n ' ' else [c])

def causeLines : List String → String
  | [] => ""
  | [c] => "\n\nCaused by:\n    " ++ hang 4 c
  | cs =>
    "\n\nCaused by:"
      ++ String.join (cs.zipIdx.map fun (c, i) => "\n    " ++ toString i ++ ": " ++ hang 7 c)

/-- The lines that a failure is reported with. Several causes are numbered from zero, and each is
indented with all of its lines. -/
def report (e : Failure) : String := "Error: " ++ e.message ++ causeLines e.causes ++ "\n"

end Failure

end SmallScript
