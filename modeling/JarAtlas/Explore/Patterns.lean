import JarAtlas.Host.Connect

/-!
Design patterns that a class shows by its name and members.
-/

namespace JarAtlas

namespace Pattern

def isSingleton (d : ClassDetails) : Bool :=
  (d.methods.any fun m => ["getInstance", "get"].contains m.name && m.isStatic) ||
    d.constants.any fun k => ["INSTANCE", "instance"].contains k.name

def isFactory (d : ClassDetails) : Bool :=
  Text.contains d.row.name "Factory" ||
    d.methods.any fun m => ["create", "of", "from"].contains m.name && m.isStatic

def isSystem (d : ClassDetails) : Bool :=
  Text.contains d.row.name "System" ||
    d.methods.any fun m => ["onTick", "onEntityAdded", "onEntityRemoved"].contains m.name

def isComponent (d : ClassDetails) : Bool :=
  Text.contains d.row.name "Component" || Text.contains (d.row.interfaces.getD "") "Component"

def isValue (d : ClassDetails) : Bool :=
  !d.methods.isEmpty && d.methods.all fun m =>
    !Text.startsWith m.name "set" &&
      (Text.startsWith m.name "get" || Text.startsWith m.name "is" ||
        ["equals", "hashCode", "toString"].contains m.name)

def all : List (String × (ClassDetails → Bool)) := [
  ("Singleton", isSingleton),
  ("Factory", isFactory),
  ("ECS System", isSystem),
  ("ECS Component", isComponent),
  ("Immutable/Value Object", isValue)]

def names (d : ClassDetails) : List String :=
  (all.filter fun p => p.2 d).map (·.1)

end Pattern

def detectPatterns (p : Path) (package name : Json) : Action (List String) :=
  Action.queryDatabase p fun d => do
    match ← d.details package name with
    | some c => return Pattern.names c
    | none => return []

structure SystemMethods where
  row : ClassRow
  methods : List MethodRow

def groupSystems (found : List ClassMethod) : List SystemMethods :=
  let firsts := found.foldl (fun (done : List ClassRow) m =>
    if done.any fun row => row.key == m.row.key then done else done ++ [m.row]) []
  firsts.map fun row =>
    ⟨row, (found.filter fun m => m.row.key == row.key).map (·.method)⟩

def SystemMethods.toJson (s : SystemMethods) : Json :=
  .obj [
    ("package", .str s.row.package),
    ("class_name", .str s.row.name),
    ("file_path", .str s.row.filePath),
    ("methods", .arr (s.methods.map fun m =>
      .obj [("method", .str m.name), ("params", .str m.params)]))]

def findSystems (p : Path) (component limit : Json) : Action (List Json) := do
  let found ← Action.queryDatabase p fun d => d.systemsFor component limit
  return (groupSystems found).map SystemMethods.toJson

end JarAtlas
