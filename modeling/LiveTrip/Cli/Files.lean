import LiveTrip.Error

/-!
# Files

* `FileSystem`: what a command needs of files, in any monad.
* `Node`, `Disk`: files in memory, and `Disk.fileSystem`, the same operations on them.
* `parentOf`: the path of the folder that a path is in.
-/

namespace LiveTrip.Cli

/-- What a command needs of files. -/
structure FileSystem (m : Type → Type) where
  pathExists : String → m Bool
  /-- The text of a file. -/
  read : String → m (Except FileError String)
  /-- Makes a folder and those it is in, where they are missing. -/
  makeFolders : String → m (Except FileError Unit)
  /-- Makes a file with a text, or replaces one. -/
  write : String → String → m (Except FileError Unit)

/-- The names a path leads through. -/
def parts (path : String) : List String := (path.splitOn "/").filter fun s => s ≠ "" && s ≠ "."

/-- The folder that a path is in, if the path names one. -/
def parentOf (path : String) : Option String :=
  match (parts path).dropLast with
  | [] => none
  | names =>
    let relative := "/".intercalate names
    some (if path.startsWith "/" then "/" ++ relative else relative)

/-- A file or a folder. -/
inductive Node
  | file (text : String)
  | folder (entries : List (String × Node))
  deriving Inhabited

namespace Node

/-- The node with a name among entries. -/
def child? (entries : List (String × Node)) (name : String) : Option Node :=
  (entries.find? (·.1 == name)).map (·.2)

/-- The entries with one put in, in place of what had its name. -/
def withEntry (entries : List (String × Node)) (name : String) (node : Node) :
    List (String × Node) :=
  if (child? entries name).isSome then
    entries.map fun e => if e.1 == name then (name, node) else e
  else entries ++ [(name, node)]

/-- The node that names lead to. -/
def find : List String → Node → Except FileError Node
  | [], node => .ok node
  | name :: rest, .folder entries =>
    match child? entries name with
    | some node => find rest node
    | none => .error .notFound
  | _ :: _, .file _ => .error .notDirectory

/-- The tree with a file at the end of some names. -/
def put (text : String) : List String → Node → Except FileError Node
  | [], .folder _ => .error .isDirectory
  | [], .file _ => .ok (.file text)
  | name :: rest, .folder entries =>
    match child? entries name, rest with
    | some node, _ => do
      let node ← put text rest node
      pure (.folder (withEntry entries name node))
    | none, [] => .ok (.folder (withEntry entries name (.file text)))
    | none, _ => .error .notFound
  | _ :: _, .file _ => .error .notDirectory

/-- The tree with folders along some names. -/
def makeFolders : List String → Node → Except FileError Node
  | [], node => .ok node
  | name :: rest, .folder entries =>
    match (child? entries name).getD (.folder []), rest with
    | .file _, [] => .error .alreadyExists
    | node, _ => do
      let node ← makeFolders rest node
      pure (.folder (withEntry entries name node))
  | _ :: _, .file _ => .error .notDirectory

end Node

/-- Files in memory: the tree that paths start in, and the tree that those with a slash in front
start in. -/
structure Disk where
  working : Node := .folder []
  root : Node := .folder [("tmp", .folder [])]
  deriving Inhabited

namespace Disk

/-- The tree that a path starts in. -/
def treeOf (path : String) (d : Disk) : Node := if path.startsWith "/" then d.root else d.working

/-- The disk with the tree that a path starts in replaced. -/
def setTree (path : String) (tree : Node) (d : Disk) : Disk :=
  if path.startsWith "/" then { d with root := tree } else { d with working := tree }

/-- What a path leads to. A slash at its end asks for a folder. -/
def lookUp (path : String) (d : Disk) : Except FileError Node := do
  match ← Node.find (parts path) (d.treeOf path) with
  | .file text => if path.endsWith "/" then .error .notDirectory else pure (.file text)
  | .folder entries => pure (.folder entries)

def read (path : String) (d : Disk) : Except FileError String := do
  match ← d.lookUp path with
  | .file text => pure text
  | .folder _ => .error .isDirectory

def makeFolders (path : String) (d : Disk) : Except FileError Disk := do
  pure (d.setTree path (← Node.makeFolders (parts path) (d.treeOf path)))

def write (path text : String) (d : Disk) : Except FileError Disk := do
  if path.endsWith "/" then .error .isDirectory
  else pure (d.setTree path (← Node.put text (parts path) (d.treeOf path)))

/-- Puts a change into effect, if there is no error. -/
def change (f : Disk → Except FileError Disk) : StateM Disk (Except FileError Unit) := do
  match f (← get) with
  | .ok d =>
    set d
    pure (.ok ())
  | .error cause => pure (.error cause)

/-- The operations on files in memory. -/
def fileSystem : FileSystem (StateM Disk) where
  pathExists path := do pure (lookUp path (← get)).isOk
  read path := do pure (read path (← get))
  makeFolders path := change (makeFolders path)
  write path text := change (write path text)

end Disk
end LiveTrip.Cli
