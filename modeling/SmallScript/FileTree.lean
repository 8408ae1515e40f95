namespace SmallScript

inductive FileTree where
  | file (content : ByteArray)
  | folder (entries : List (String × FileTree))

inductive FileError where
  | notFound
  | notFolder
  | isFolder
  | nameTooLong
  | notText
  deriving DecidableEq

def FileError.message : FileError → String
  | notFound => "No such file or directory (os error 2)"
  | notFolder => "Not a directory (os error 20)"
  | isFolder => "Is a directory (os error 21)"
  | nameTooLong => "File name too long (os error 36)"
  | notText => "stream did not contain valid UTF-8"

namespace FileTree

def empty : FileTree := .folder []

def parts (path : String) : List String :=
  (path.splitOn "/").filter fun p => p ≠ "" ∧ p ≠ "."

def insertEntry (name : String) (t : FileTree) :
    List (String × FileTree) → List (String × FileTree)
  | [] => [(name, t)]
  | (n, u) :: es =>
    if n = name then (n, t) :: es
    else if name < n then (name, t) :: (n, u) :: es
    else (n, u) :: insertEntry name t es

def entries : FileTree → List (String × FileTree)
  | file _ => []
  | folder es => es

def entry? (t : FileTree) (name : String) : Option FileTree :=
  (t.entries.find? fun (n, _) => n == name).map Prod.snd

def insert (leaf : FileTree) : List String → FileTree → FileTree
  | [], t =>
    match leaf, t with
    | .folder [], .folder es => .folder es
    | leaf, _ => leaf
  | p :: ps, t => .folder (insertEntry p (insert leaf ps ((t.entry? p).getD empty)) t.entries)

def ofFiles (files : List (String × ByteArray)) : FileTree :=
  files.foldl (fun t (path, content) =>
    insert (if path.endsWith "/" then empty else .file content) (parts path) t) empty

def maxName : Nat := 255

def maxPath : Nat := 4095

/-- Follows the parts of a path from a tree inside some nested folders, the innermost first.
Around the outermost of them lie folders without other entries. -/
def follow (t : FileTree) (outer : List FileTree) : List String → Except FileError FileTree
  | [] => .ok t
  | p :: ps =>
    match t with
    | .file _ => .error .notFolder
    | .folder _ =>
      if p = ".." then follow (outer.headD empty) outer.tail ps
      else if maxName < p.utf8ByteSize then .error .nameTooLong
      else
        match t.entry? p with
        | none => .error .notFound
        | some u => follow u (t :: outer) ps

/-- What lies outside of every tree, as far as all systems agree on it. -/
def outside : FileTree :=
  .folder [("dev", .folder [("null", .file ByteArray.empty)]), ("tmp", empty)]

def walk (t : FileTree) (path : String) : Except FileError FileTree :=
  if maxPath < path.utf8ByteSize then .error .nameTooLong
  else if path.startsWith "/" then follow outside [] (parts path)
  else follow t [] (parts path)

/-- What a path names. One that ends with a slash, or a slash and a dot, names a folder. -/
def find (t : FileTree) (path : String) : Except FileError FileTree :=
  match t.walk path with
  | .error e => .error e
  | .ok (.folder es) => .ok (.folder es)
  | .ok (.file content) =>
    if path.endsWith "/" ∨ path.endsWith "/." then .error .notFolder else .ok (.file content)

def textOf (content : ByteArray) : Except FileError String :=
  match String.fromUTF8? content with
  | some s => .ok s
  | none => .error .notText

def read : Except FileError FileTree → Except FileError String
  | .error e => .error e
  | .ok (.folder _) => .error .isFolder
  | .ok (.file content) => textOf content

def join (path name : String) : String :=
  if path = "" ∨ path.endsWith "/" then path ++ name else path ++ "/" ++ name

mutual

def files (path : String) : FileTree → List (String × ByteArray)
  | .file content => [(path, content)]
  | .folder es => filesOf path es

def filesOf (path : String) : List (String × FileTree) → List (String × ByteArray)
  | [] => []
  | (name, t) :: es => files (join path name) t ++ filesOf path es

end

def nameOf (path : String) : String := (parts path).getLastD ""

end FileTree

end SmallScript
