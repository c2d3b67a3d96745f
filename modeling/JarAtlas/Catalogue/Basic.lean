import JarAtlas.Store.Cell

/-!
The catalogue of a server version: its classes, their methods and constants, and one full-text entry
for each of them. Tables number their rows from one and never use a number twice.
-/

namespace JarAtlas

/-- Rows in order of insertion, and the last number that was used for one. -/
structure Table (α : Type) where
  rows : List α := []
  lastId : Nat := 0
  deriving Repr, DecidableEq

namespace Table

def push (t : Table α) (row : Nat → α) : Table α :=
  ⟨t.rows ++ [row (t.lastId + 1)], t.lastId + 1⟩

def skip (t : Table α) : Table α :=
  ⟨t.rows, t.lastId + 1⟩

def clear (t : Table α) : Table α :=
  ⟨[], t.lastId⟩

end Table

structure ClassRow where
  id : Nat
  package : String
  name : String
  kind : String
  filePath : String
  parent : Option String
  interfaces : Option String
  deriving DecidableEq, Repr

def ClassRow.key (c : ClassRow) : String × String :=
  (c.package, c.name)

structure MethodRow where
  classId : Option Int
  name : String
  returns : String
  params : String
  isStatic : Bool
  tag : Option String
  deriving DecidableEq, Repr

structure ConstantRow where
  classId : Option Int
  name : String
  type : String
  value : String
  deriving DecidableEq, Repr

structure EntryFields where
  package : Cell
  className : Cell
  kind : Cell
  methodName : Cell := .null
  returns : Cell := .null
  params : Cell := .null
  constName : Cell := .null
  constValue : Cell := .null
  snippet : Cell := .null
  deriving DecidableEq, Repr

def EntryFields.cells (e : EntryFields) : List Cell :=
  [e.package, e.className, e.kind, e.methodName, e.returns, e.params, e.constName, e.constValue,
    e.snippet]

structure Entry extends EntryFields where
  id : Nat
  deriving DecidableEq, Repr

structure Catalogue where
  classes : Table ClassRow := {}
  methods : Table MethodRow := {}
  constants : Table ConstantRow := {}
  entries : List Entry := []
  deriving DecidableEq, Repr

namespace Catalogue

def findClass? (c : Catalogue) (package name : String) : Option ClassRow :=
  c.classes.rows.find? fun row => row.package == package && row.name == name

def nextEntry (c : Catalogue) : Nat :=
  (c.entries.foldl (fun n e => max n e.id) 0) + 1

def counts (c : Catalogue) : Nat × Nat × Nat :=
  (c.classes.rows.length, c.methods.rows.length, c.constants.rows.length)

/-- The catalogue without rows; numbers stay used, except those of entries. -/
def clear (c : Catalogue) : Catalogue :=
  ⟨c.classes.clear, c.methods.clear, c.constants.clear, []⟩

end Catalogue

def textLe (a b : String) : Bool :=
  decide (a ≤ b)

def pairLe (a b : String × String) : Bool :=
  decide (a.1 < b.1) || (a.1 == b.1 && decide (a.2 ≤ b.2))

end JarAtlas
