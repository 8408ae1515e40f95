import SmallScript.Main
import SmallScript.Proofs.Conformance.Recap
import SmallScript.Proofs.Console.Complete
import SmallScript.Proofs.Console.Incomplete
import SmallScript.Proofs.Eval.Compound
import SmallScript.Proofs.Eval.Rethrow
import SmallScript.Proofs.Eval.Trace
import SmallScript.Proofs.Eval.WordForm
import SmallScript.Proofs.Grammar.Chain
import SmallScript.Proofs.Grammar.Comment
import SmallScript.Proofs.Grammar.Cut.Refused
import SmallScript.Proofs.Grammar.LineEnd
import SmallScript.Proofs.Grammar.Regular
import SmallScript.Proofs.Grammar.Termination
import SmallScript.Proofs.Lexical.Escape
import SmallScript.Proofs.Memory.Element
import SmallScript.Proofs.Memory.Equality
import SmallScript.Proofs.Memory.Forest
import SmallScript.Proofs.Memory.Order
import SmallScript.Proofs.Memory.Rendering
import SmallScript.Proofs.Number.Reading
import SmallScript.Proofs.Printed.Rendering
import SmallScript.Proofs.Session.Constants
import SmallScript.Proofs.Session.Depth
import SmallScript.Proofs.Session.DepthLimit
import SmallScript.Proofs.Session.Faults
import SmallScript.Proofs.Session.FrameEffect
import SmallScript.Proofs.Session.FunctionNames
import SmallScript.Proofs.Session.Hoisting
import SmallScript.Proofs.Session.OwnFrames
import SmallScript.Proofs.Session.Parentheses
import SmallScript.Proofs.Session.Properties
import SmallScript.Proofs.Session.Redeclaration
import SmallScript.Proofs.Session.Refusal
import SmallScript.Proofs.Session.Uncatchable
