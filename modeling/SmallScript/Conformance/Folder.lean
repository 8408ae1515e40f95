import SmallScript.Conformance.Report
import SmallScript.Failure
import SmallScript.FileTree

namespace SmallScript.Conformance

/-- Whether the part of a name behind its last dot is `js`; a dot at the front does not count. -/
def isTestName (name : String) : Bool :=
  match name.toList.reverse with
  | 's' :: 'j' :: '.' :: _ :: _ => true
  | _ => false

def findTests (path : String) (found : Except FileError FileTree) :
    Except Failure (List (String × ByteArray)) :=
  match found with
  | .error e =>
    .error ⟨"Failed to walk " ++ path,
      ["IO error for operation on " ++ path ++ ": " ++ e.message, e.message]⟩
  | .ok t => .ok ((FileTree.files path t).filter fun (p, _) => isTestName (FileTree.nameOf p))

def runTest (maxDepth : Nat) (path : String) (content : ByteArray) :
    Except Failure (String × Verdict) :=
  match FileTree.textOf content with
  | .error e => .error ⟨"Failed to read " ++ path, [e.message]⟩
  | .ok source => .ok (path, judge maxDepth source)

/-- Runs the tests at a path. A test that cannot be read ends the run. -/
def runFolder (maxDepth : Nat) (path : String) (found : Except FileError FileTree) :
    Except Failure Report := do
  let tests ← findTests path found
  tests.mapM fun (p, content) => runTest maxDepth p content

end SmallScript.Conformance
