import Mustache.Error

namespace Mustache

inductive FilePlace.Base where
  /-- The directory so many steps above the one of the tree. -/
  | above (steps : Nat)
  /-- The root of all directories. -/
  | root
deriving DecidableEq

/-- A file or directory by the names that lead to it from a directory that has no name here. -/
structure FilePlace where
  base : FilePlace.Base
  names : List Text
deriving DecidableEq

inductive FileNode where
  | file (content : Text.Bytes)
  | directory
deriving DecidableEq

structure FileTree where
  nodes : List (FilePlace × FileNode)

namespace FilePlace

def parent : FilePlace → FilePlace
  | ⟨.above n, []⟩ => ⟨.above (n + 1), []⟩
  | ⟨.root, []⟩ => ⟨.root, []⟩
  | ⟨base, names⟩ => ⟨base, names.dropLast⟩

def step (here : FilePlace) (part : Text) : FilePlace :=
  if part.isEmpty ∨ part = ['.'] then here
  else if part = ['.', '.'] then here.parent
  else { here with names := here.names ++ [part] }

def start (path : Text) : FilePlace := ⟨if path.head? = some '/' then .root else .above 0, []⟩

end FilePlace

namespace FileTree

def empty : FileTree := ⟨[]⟩

def splitPath : Text → List Text
  | [] => [[]]
  | c :: cs =>
    if c = '/' then [] :: splitPath cs
    else
      match splitPath cs with
      | [] => [[c]]
      | name :: names => (c :: name) :: names

def node? (tree : FileTree) (place : FilePlace) : Option FileNode :=
  if place.names.isEmpty then some .directory
  else (tree.nodes.find? (·.1 = place)).map Prod.snd

def maxNameBytes : Nat := 255

def maxPathBytes : Nat := 4095

def follow (tree : FileTree) : FilePlace → FileNode → List Text → Except Fault FileNode
  | _, node, [] => .ok node
  | _, .file _, _ :: _ => .error .notADirectory
  | here, .directory, part :: parts =>
    if maxNameBytes < part.byteCount then .error .nameTooLong
    else
      match tree.node? (here.step part) with
      | none => .error .notFound
      | some node => follow tree (here.step part) node parts

def find (tree : FileTree) (path : Text) : Except Fault FileNode :=
  if path.contains '\x00' then .error .zeroInPath
  else if path.isEmpty then .error .notFound
  else if maxPathBytes < path.byteCount then .error .nameTooLong
  else tree.follow (.start path) .directory (splitPath path)

def isFile (tree : FileTree) (path : Text) : Bool :=
  match tree.find path with
  | .ok (.file _) => true
  | _ => false

def read (tree : FileTree) (path : Text) : Except Fault Text.Bytes := do
  match ← tree.find path with
  | .file content => .ok content
  | .directory => .error .isADirectory

def put (tree : FileTree) (place : FilePlace) (node : FileNode) : FileTree :=
  ⟨(place, node) :: tree.nodes⟩

/-- Puts a node where a path leads, and directories where they are missing on the way. -/
def insert (tree : FileTree) (path : Text) (node : FileNode) : FileTree :=
  go tree (.start path) (splitPath path)
where
  go (tree : FileTree) (here : FilePlace) : List Text → FileTree
    | [] => tree
    | [part] => tree.put (here.step part) node
    | part :: parts =>
      let there := here.step part
      go (if (tree.node? there).isSome then tree else tree.put there .directory) there parts

def join (directory name : Text) : Text :=
  if directory.isEmpty then name
  else if directory.getLast? = some '/' then directory ++ name
  else directory ++ '/' :: name

end FileTree

end Mustache
