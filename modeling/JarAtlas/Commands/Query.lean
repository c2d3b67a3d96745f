import JarAtlas.Assets.Index
import JarAtlas.Commands.Announce
import JarAtlas.Explore.Search

/-!
The command that searches a catalogue or a table of assets.
-/

namespace JarAtlas

namespace Commands

structure QueryRequest where
  term : String
  version : ServerVersion := .release
  asJson : Bool := false
  limit : Json := .int 30
  assets : Bool := false

def sizeText : Cell → Except Fault String
  | .int n =>
    let kilobytes := if n == 0 then .zero false else Double.ofQuotient (n < 0) n.natAbs 1024
    .ok (kilobytes.onePlace ++ " KB")
  | .real d => .ok ((d.share 1024).onePlace ++ " KB")
  | _ => .error (.wrongKind "")

def textOrHyphen (s : Option String) : Json :=
  .str ((s.filter (· != "")).getD "-")

def assetRow (a : Asset) : Except Fault (List (String × Json)) := do
  return [
    ("path", .str a.path),
    ("category", textOrHyphen a.category),
    ("id", textOrHyphen a.internalId),
    ("size", .str (← sizeText a.size)),
    ("dims", .str (a.dimensions?.getD "-"))]

def showAssets (r : QueryRequest) (found : List Asset) : Action Nat := do
  let name := r.version.name
  if r.asJson then
    Action.print ((Json.arr (found.map Asset.toJson)).compact ++ "\n")
  else if found.isEmpty then
    Console.success ("No se encontraron assets para '" ++ r.term ++ "' en " ++ name ++ ".")
  else
    Console.phase ("Se encontraron " ++ toString found.length ++ " assets para '" ++ r.term ++
      "' (" ++ name ++ "):")
    let rows ← Action.ofExcept (found.mapM assetRow)
    Console.showTable (.str "Resultados de Assets") ["path", "category", "id", "dims", "size"] rows
  return 0

def queryAssets (root : Path) (r : QueryRequest) : Action Nat := do
  let name := r.version.name
  let database ← Layout.assets root name
  if ← Action.isThere database then
    let found ← Console.during ("Buscando asset '" ++ r.term ++ "' en " ++ name ++ "...")
      (Action.queryDatabase database fun d => d.searchAssets (.str r.term) r.limit)
    showAssets r found
  else
    Console.error ("Base de datos de assets para " ++ name ++ " no encontrada.")
    throw (.exit 1)

def fieldsOf : Json → List (String × Json)
  | .obj fields => fields
  | _ => []

def showRows (r : QueryRequest) (found : List Json) : Action Nat := do
  let values := [("term", .str r.term), ("version", .str r.version.name)]
  if r.asJson then
    let answer : Json := .obj [
      ("version", .str r.version.name),
      ("term", .str (Text.strip r.term)),
      ("count", .ofNat found.length),
      ("results", .arr found)]
    Action.print (answer.compact ++ "\n")
  else if found.isEmpty then tellSuccess "cli.query.no_results" values
  else
    tellPhase "cli.query.result_count" (("count", .ofNat found.length) :: values)
    let title ← Messages.phrase "cli.query.table_title" []
    Console.showTable title ["package", "class_name", "kind", "method_name", "params", "returns"]
      (found.map fieldsOf)
  return 0

def refuseSearch (p : Problem) : Action Nat := do
  Console.error p.message.display
  match (Json.lookup "hint" p.more).filter Json.isGiven with
  | some hint => Console.error hint.display
  | none => pure ()
  throw (.exit 1)

def queryCatalogue (root : Path) (r : QueryRequest) : Action Nat := do
  let searching ← Messages.say "cli.query.searching"
    [("term", .str r.term), ("version", .str r.version.name)]
  let outcome ← Console.during searching
    (searchCatalogue root r.version
      { query := .str (Text.strip r.term), limit := r.limit } true)
  match outcome with
  | .ok found => showRows r found
  | .error p => refuseSearch p

def query (root : Path) (r : QueryRequest) : Action Nat := do
  if Text.strip r.term == "" then
    tellError "cli.query.usage" []
    throw (.exit 1)
  else if r.assets then queryAssets root r
  else queryCatalogue root r

end Commands

end JarAtlas
