import JarAtlas.Catalogue.Basic

/-!
Adding to a catalogue. A writer remembers the number of the last row that it inserted into any
table.
-/

namespace JarAtlas

structure Writer where
  catalogue : Catalogue
  lastRow : Nat
  deriving DecidableEq, Repr

structure NewClass where
  package : Option String
  name : Option String
  kind : Option String
  filePath : Option String
  parent : Option String := none
  interfaces : Option String := none
  deriving DecidableEq, Repr

/-- The row of a new class, unless something required is not given. -/
def NewClass.row? (new : NewClass) : Option (Nat → ClassRow) := do
  let package ← new.package
  let name ← new.name
  let kind ← new.kind
  let filePath ← new.filePath
  return fun id => ⟨id, package, name, kind, filePath, new.parent, new.interfaces⟩

def missing (column : String) : Fault :=
  .store (.missingValue column)

def require (column : String) (value : Option α) : Except Fault α :=
  match value with
  | some a => .ok a
  | none => .error (missing column)

namespace Writer

/-- Gives the class of the same name the new kind, file, parent and interfaces. -/
def updateClass (w : Writer) (new : NewClass) : Except Fault Writer := do
  let same (row : ClassRow) : Bool :=
    new.package == some row.package && new.name == some row.name
  if w.catalogue.classes.rows.any same then
    let kind ← require "classes.kind" new.kind
    let filePath ← require "classes.file_path" new.filePath
    let rows := w.catalogue.classes.rows.map fun row =>
      if same row then
        { row with kind, filePath, parent := new.parent, interfaces := new.interfaces }
      else row
    return { w with catalogue.classes.rows := rows }
  else return w

/-- Inserts a class unless one of the same name is there or something required is not given, and
gives the number of the last inserted row. Each attempt uses up a number. Only when nothing was
inserted before does it give the number of the class that is already there, which is then
updated. -/
def insertClass (w : Writer) (new : NewClass) : Except Fault (Writer × Nat) :=
  let known := (do w.catalogue.findClass? (← new.package) (← new.name)).isSome
  match new.row? with
  | some row =>
    if known then ignored else
      let classes := w.catalogue.classes.push row
      .ok (⟨{ w.catalogue with classes }, classes.lastId⟩, classes.lastId)
  | none => ignored
where
  /-- What happens when the class is not inserted. -/
  ignored : Except Fault (Writer × Nat) := do
    let w := { w with catalogue.classes := w.catalogue.classes.skip }
    if 0 < w.lastRow then return (w, w.lastRow)
    else
      let w ← w.updateClass new
      let found := do w.catalogue.findClass? (← new.package) (← new.name)
      return (w, (found.map (·.id)).getD 0)

def insertMethod (w : Writer) (row : MethodRow) : Writer :=
  let methods := w.catalogue.methods.push fun _ => row
  ⟨{ w.catalogue with methods }, methods.lastId⟩

def insertConstant (w : Writer) (row : ConstantRow) : Writer :=
  let constants := w.catalogue.constants.push fun _ => row
  ⟨{ w.catalogue with constants }, constants.lastId⟩

def insertEntry (w : Writer) (fields : EntryFields) : Writer :=
  let id := w.catalogue.nextEntry
  ⟨{ w.catalogue with entries := w.catalogue.entries ++ [{ fields with id }] }, id⟩

end Writer

end JarAtlas
