import JarAtlas.Files.Content
import JarAtlas.Files.Path

/-!
A tree of files and directories, known by their places: the parts of their anchored paths. There are
no links, so a place belongs to at most one path without double dots.
-/

namespace JarAtlas

abbrev Place := List String

inductive Node where
  | directory
  | file (content : Content) (time : Nat)

/-- Files and directories by place. The top directory is always there. -/
structure FileTree where
  nodes : List (Place × Node) := []

namespace FileTree

def get? (t : FileTree) (place : Place) : Option Node :=
  if place.isEmpty then some .directory
  else (t.nodes.find? fun n => n.1 == place).map (·.2)

def put (t : FileTree) (place : Place) (node : Node) : FileTree :=
  ⟨replace t.nodes⟩
where
  replace : List (Place × Node) → List (Place × Node)
    | [] => [(place, node)]
    | n :: ns => if n.1 == place then (place, node) :: ns else n :: replace ns

def remove (t : FileTree) (place : Place) : FileTree :=
  ⟨t.nodes.filter fun n => !place.isPrefixOf n.1⟩

def isDir (t : FileTree) (place : Place) : Bool :=
  match t.get? place with
  | some .directory => true
  | _ => false

def isFile (t : FileTree) (place : Place) : Bool :=
  match t.get? place with
  | some (.file ..) => true
  | _ => false

def maxPartSize : Nat := 255

def maxPathSize : Nat := 4095

/-- The place that the parts lead to from `place`, if all but the last are directories. No directory
holds a part that is too long. -/
def walk (t : FileTree) : Place → List String → Except FileError Place
  | place, [] => .ok place
  | place, part :: parts =>
    match t.get? place with
    | none => .error .missing
    | some (.file ..) => .error .notDirectory
    | some .directory =>
      if maxPartSize < part.utf8ByteSize then .error .nameTooLong
      else t.walk (if part == ".." then place.dropLast else place ++ [part]) parts

def locate (t : FileTree) (here : Place) (p : Path) : Except FileError Place :=
  if maxPathSize < p.text.utf8ByteSize then .error .nameTooLong
  else t.walk (if p.isAbsolute then [] else here) p.parts

def below (t : FileTree) (place : Place) : List (Place × Node) :=
  let found := t.nodes.filter fun n => place.isPrefixOf n.1 && n.1 != place
  let keyed := found.map fun n => (Text.join "/" n.1, n)
  (keyed.mergeSort fun a b => decide (a.1 ≤ b.1)).map (·.2)

def names (t : FileTree) (place : Place) : List String :=
  ((t.below place).filter fun n => n.1.length == place.length + 1).filterMap fun n => n.1.getLast?

end FileTree

end JarAtlas
