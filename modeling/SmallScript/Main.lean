import SmallScript.CommandLine

open SmallScript

namespace SmallScript.Main

def fileError : IO.Error → FileError
  | .inappropriateType .. => .notFolder
  | .invalidArgument .. => .nameTooLong
  | _ => .notFound

def isFolderError : IO.Error → Bool
  | .inappropriateType _ code _ => code == 21
  | _ => false

mutual

partial def load (withEntries : Bool) (path : String) : IO (Except FileError FileTree) := do
  try
    return .ok (.file (← IO.FS.readBinFile path))
  catch e =>
    if !isFolderError e then return .error (fileError e)
    return .ok (.folder (← if withEntries then loadEntries path else pure []))

partial def loadEntries (path : String) : IO (List (String × FileTree)) := do
  let mut entries : List (String × FileTree) := []
  for e in ← (← IO.FS.realPath path).readDir do
    if (← e.path.symlinkMetadata).type == .symlink then continue
    match ← load true (FileTree.join path e.fileName) with
    | .ok t => entries := FileTree.insertEntry e.fileName t entries
    | .error _ => pure ()
  return entries

end

def flush (c : Console) : IO Console := do
  let (text, session) := c.session.takeOutput
  IO.print text
  IO.eprint c.errors
  (← IO.getStdout).flush
  return { c with session, errors := "" }

partial def converse (host : Host) (c : Console) : IO Unit := do
  let c ← flush c
  if c.isClosed then return
  let line ← (← IO.getStdin).getLine
  if line.isEmpty then
    let _ ← flush c.finish
  else converse host (c.feed host Session.abundantFuel line)

def report (r : CommandLine.Result) : IO UInt32 := do
  IO.print r.output
  IO.eprint r.errors
  return r.code.toUInt32

def run (args : List String) : IO UInt32 := do
  match CommandLine.readOptions args with
  | .error stop => report stop.result
  | .ok o =>
    let task := o.task
    let found ← match task with
      | .tests path => load true path
      | .file path _ => load false path
      | _ => pure (.error .notFound)
    match task.run o.host Session.abundantFuel found with
    | .failed output e => report ⟨1, output, e.report⟩
    | .finished output => report ⟨0, output, ""⟩
    | .reading c =>
      converse o.host c
      return 0

end SmallScript.Main

def main (args : List String) : IO UInt32 := SmallScript.Main.run args
