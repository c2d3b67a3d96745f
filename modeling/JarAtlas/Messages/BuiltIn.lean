import JarAtlas.Files.Tree
import JarAtlas.Knowledge.Concepts
import JarAtlas.Messages.Texts

/-!
The files that the program brings along, in a tree of their own.
-/

namespace JarAtlas

namespace BuiltIn

def tableJson (table : List (String × String)) : Json :=
  .obj (table.map fun (key, text) => (key, .str text))

def messagesDir : Place := ["src", "prism", "locales"]

def knowledgeDir : Place := ["src", "prism", "resources"]

def messages : List (String × Json) :=
  [("en", tableJson Messages.english), ("es", tableJson Messages.spanish)]

def knowledge : List (String × Json) :=
  [("en", tableJson Knowledge.english), ("es", tableJson Knowledge.spanish)]

def files : List (Place × Json) :=
  (messages.map fun (code, v) => (messagesDir ++ [code ++ ".json"], v)) ++
    knowledge.map fun (code, v) => (knowledgeDir ++ ["knowledge." ++ code ++ ".json"], v)

def isDir (place : Place) : Bool :=
  files.any fun f => place.isPrefixOf f.1 && place != f.1

/-- The place that parts lead to from a place, if all but the last are directories. No directory
holds a part that is too long. -/
def walk : Place → List String → Except FileError (Option Place)
  | place, [] => .ok (some place)
  | place, part :: parts =>
    if isDir place then
      if FileTree.maxPartSize < part.utf8ByteSize then .error .nameTooLong
      else walk (if part == ".." then place.dropLast else place ++ [part]) parts
    else .ok none

def messageFile? (name : Path) : Except FileError (Option Json) := do
  if name.hasNull then return none
  else if FileTree.maxPathSize < name.text.utf8ByteSize then throw .nameTooLong
  else
    match ← walk messagesDir name.parts with
    | some place => return (files.find? fun f => f.1 == place).map (·.2)
    | none => return none

def lookUp (name : Path) : Except Fault (Option Json) :=
  match messageFile? name with
  | .ok v => .ok v
  | .error e => .error (.file e name.text)

end BuiltIn

end JarAtlas
