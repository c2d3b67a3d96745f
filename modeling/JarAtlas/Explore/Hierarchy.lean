import JarAtlas.Explore.Problem
import JarAtlas.Host.Connect
import JarAtlas.Workspace.Layout

/-!
The parents of a class, upwards until one is unknown, comes again or has no parent itself.
-/

namespace JarAtlas

inductive Ancestor where
  | known (row : ClassRow)
  | external (name : String)
  deriving DecidableEq, Repr

namespace Hierarchy

/-- Whether hits of a simple name mean one class: there is just one, or all are of that class. -/
def meansOne (name : String) (hits : List Hit) : Bool :=
  hits.length == 1 || hits.all fun h => h.entry.className == .text name

/-- The class that a parent text means for a class in `package`: a dotted name is a full one; a
simple one is looked for in the package and then everywhere. -/
def parent? (d : Database) (name package : String) : Except Fault (Option ClassRow) := do
  match Text.splitLast? '.' name.toList with
  | some (outer, last) =>
    let found ← d.details (.str (String.ofList outer)) (.str (String.ofList last))
    return found.map (·.row)
  | none =>
    match ← d.details (.str package) (.str name) with
    | some found => return some found.row
    | none =>
      match ← d.hits name (.int 2) {} with
      | [] => return none
      | hit :: hits =>
        if meansOne name (hit :: hits) then
          let found ← d.details hit.entry.package.toJson hit.entry.className.toJson
          return found.map (·.row)
        else return none

/-- The ancestors of a class. `seen` holds the names passed on the way, and each step uses one unit
of `fuel`. -/
def ancestorsFrom (d : Database) :
    Nat → List (String × String) → ClassRow → Except Fault (List Ancestor)
  | 0, _, _ => .ok []
  | fuel + 1, seen, c =>
    match c.parent.filter (· != "") with
    | none => .ok []
    | some name => do
      match ← parent? d name c.package with
      | none => return [.external name]
      | some row =>
        if seen.contains row.key then return []
        else return .known row :: (← ancestorsFrom d fuel (row.key :: seen) row)

def ancestors (d : Database) (package name : Json) (c : ClassRow) :
    Except Fault (List Ancestor) := do
  let count := (← d.stats).1
  ancestorsFrom d (count + 2) [(package.display, name.display)] c

def interfaceNames (c : ClassRow) : List String :=
  match c.interfaces.filter (· != "") with
  | some s => Text.split s ','
  | none => []

end Hierarchy

def Ancestor.toJson : Ancestor → Json
  | known row =>
    .obj [("package", .str row.package), ("class_name", .str row.name), ("kind", .str row.kind)]
  | external name => .obj [("class_name", .str name), ("external", .bool true)]

def showHierarchy (p : Path) (package name : Json) : Action Json :=
  Action.queryDatabase p fun d => do
    match ← d.details package name with
    | none =>
      return Problem.toJson
        ⟨"not_found", .str ("Class " ++ package.display ++ "." ++ name.display ++
          " not found."), []⟩
    | some c =>
      let ancestors ← Hierarchy.ancestors d package name c.row
      return .obj [
        ("class_name", name),
        ("package", package),
        ("kind", .str c.row.kind),
        ("parent_tree", .arr (ancestors.map Ancestor.toJson)),
        ("interfaces", .arr ((Hierarchy.interfaceNames c.row).map .str))]

end JarAtlas
