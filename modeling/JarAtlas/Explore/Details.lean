import JarAtlas.Explore.Search
import JarAtlas.Explore.Source

/-!
What there is in the catalogue of a version: a class, a method, lists of classes and packages,
events, implementations and numbers.
-/

namespace JarAtlas

def askCatalogue (root : Option Path) (v : ServerVersion) (f : Database → Except Fault α) :
    Action (Except Problem α) := do
  let root ← rootOr root
  let p ← Layout.catalogue root v.name
  if ← Action.isFile p then return .ok (← Action.queryDatabase p f)
  else return .error (.noDatabase v)

def Problem.noClass (package name : Json) : Problem :=
  ⟨"not_found", .str ("Class " ++ package.display ++ "." ++ name.display ++ " not found."), []⟩

def Problem.noClassBut (package name : Json) (others : List Json) : Problem :=
  let line (c : Json) : String :=
    let part (key : String) : String := ((c.get? key).getD .null).display
    "- " ++ part "package" ++ "." ++ part "class_name" ++ "\n"
  let message := "Class " ++ package.display ++ "." ++ name.display ++
    " not found. Did you mean one of these?\n" ++ Text.join "" (others.map line)
  ⟨"not_found", .str message, [("suggestions", .arr others)]⟩

def suggestionLimit : Json := .int 50

def showClass (root : Option Path) (v : ServerVersion) (package name : Json)
    (withSource : Bool) : Action (Except Problem (List (String × Json))) := do
  let root ← rootOr root
  match ← askCatalogue root v fun d => d.details package name with
  | .error p => return .error p
  | .ok none =>
    let others ← searchCatalogue root v
      { query := name, limit := suggestionLimit, onePerClass := true } false
    match others with
    | .ok (c :: cs) => return .error (.noClassBut package name (c :: cs))
    | _ => return .error (.noClass package name)
  | .ok (some d) =>
    if withSource then
      match ← readSource root v (.str d.row.filePath) with
      | .ok s => return .ok (d.fields ++ [("full_source", .str (String.ofList s.text))])
      | .error _ => return .ok d.fields
    else return .ok d.fields

def findOverloads (d : Database) (package name method : Json) :
    Except Fault (Option ClassDetails) := do
  let package ← package.stripped
  let name ← name.stripped
  let method ← method.stripped
  d.overloads (.str package) (.str name) (.str method)

def showMethod (root : Option Path) (v : ServerVersion) (package name method : Json) :
    Action (Except Problem (List (String × Json))) := do
  match ← askCatalogue root v fun d => findOverloads d package name method with
  | .error p => return .error p
  | .ok none => return .error (.noClass package name)
  | .ok (some d) => return .ok d.methodFields

def listClasses (root : Option Path) (v : ServerVersion) (package : Json) (below : Bool)
    (limit offset : Json) : Action (Except Problem (List Json)) := do
  let root ← rootOr root
  let p ← Layout.catalogue root v.name
  if ← Action.isFile p then
    let limit ← Action.ofExcept (limit.clamp 1 500)
    let offset ← Action.ofExcept (Json.atLeastZero offset)
    let rows ← Action.queryDatabase p fun d => d.listClasses package below limit offset
    return .ok (rows.map ClassRow.toJson)
  else return .error (.noDatabase v)

def listPackages (root : Option Path) (v : ServerVersion) (below : Json) :
    Action (Except Problem (List Json)) := do
  match ← askCatalogue root v fun d => d.packages below with
  | .ok names => return .ok (names.map .str)
  | .error p => return .error p

def listImplementations (root : Option Path) (v : ServerVersion) (target limit : Json) :
    Action (Except Problem (List Json)) := do
  match ← askCatalogue root v fun d => d.implementations target limit with
  | .ok rows => return .ok (rows.map ClassRow.toRelativeJson)
  | .error p => return .error p

def eventFields (classes : List ClassRow) (methods : List ClassMethod) : List (String × Json) :=
  [ ("event_classes", .arr (classes.map ClassRow.toJson)),
    ("subscriptions", .arr (methods.map ClassMethod.toSubscription))]

def listEvents (root : Option Path) (v : ServerVersion) (limit : Json) :
    Action (Except Problem (List ClassRow × List ClassMethod)) :=
  askCatalogue root v fun d => d.events limit

/-- The active version line as a value: what the settings say, or else the release line. -/
def activeValue (root : Path) : Action Json := do
  let set ← Action.ofExcept (Settings.given? (← Settings.load root) "active_server")
  return set.getD (.str "release")

def statsOf (root : Path) (v : ServerVersion) : Action (Except Problem Json) := do
  let p ← Layout.catalogue root v.name
  if ← Action.isFile p then
    let (classes, methods, constants) ← Action.queryDatabase p Database.stats
    return .ok (.obj [
      ("version", .str v.name),
      ("classes", .ofNat classes),
      ("methods", .ofNat methods),
      ("constants", .ofNat constants)])
  else
    return .error ⟨"no_db", .str ("Database for version " ++ v.name ++
      " does not exist. Run prism index first."), []⟩

def showStats (root : Option Path) (version : Json) : Action (Except Problem Json) := do
  let root ← rootOr root
  let active ← Settings.load root
  let v ← match version with
    | .null => pure (.ofValue ((← Action.ofExcept (Settings.given? active "active_server")).getD
        (.str "release")))
    | value => pure (ServerVersion.ofValue value)
  statsOf root v

def indexedVersions (root : Path) : Action (List ServerVersion) :=
  ServerVersion.all.filterM fun v => do Action.isFile (← Layout.catalogue root v.name)

def showContext (root : Option Path) : Action Json := do
  let root ← rootOr root
  let active ← activeValue root
  let indexed ← indexedVersions root
  return .obj [("indexed", .arr (indexed.map fun v => .str v.name)), ("active", active)]

end JarAtlas
