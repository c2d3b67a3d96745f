import JarAtlas.Explore.Problem
import JarAtlas.Host.Connect
import JarAtlas.Messages.Phrase
import JarAtlas.Workspace.Layout

/-!
Searching the catalogue of a version.
-/

namespace JarAtlas

/-- The rows that a request finds in the database at a path. A blank query is not asked at all. -/
def searchDatabase (p : Path) (r : SearchRequest) : Action (List Json) := do
  let query ← Action.ofExcept r.query.givenText
  if Text.strip query == "" then return []
  Action.queryDatabase p fun d => d.search { r with query := .str (Text.strip query) }

def Fault.isOperational : Fault → Bool
  | .store .cannotOpen => true
  | .store (.noTable _) => true
  | .store .locked => true
  | .store (.query _) => true
  | .store .patternTooLong => true
  | _ => false

def Fault.blamesQuery (e : Fault) : Bool :=
  let text := Text.lower e.message
  e.isOperational && (Text.contains text "fts5" || Text.contains text "syntax")

def messageOr (localized : Bool) (key : String) (values : List (String × Json)) (text : String) :
    Action Json :=
  if localized then Messages.phrase key values else return .str text

def searchProblem (e : Fault) (localized : Bool) : Action Problem := do
  if e.blamesQuery then
    let hint ← messageOr localized "cli.query.fts5_help" []
      "Use a single word or quoted phrase. Multiple terms: term1 AND term2."
    return ⟨"fts5_syntax", .str e.message, [("hint", hint)]⟩
  else return ⟨"db", .str e.message, []⟩

def preparedValue : Json → Except Fault String
  | .str s => .ok (Query.prepare s)
  | v => if v.isGiven then .error (.wrongKind "") else .ok ""

/-- Searches the catalogue of a version, for at least one and at most 500 rows. The query is
prepared once here and once by the database. -/
def searchCatalogue (root : Option Path) (v : ServerVersion) (r : SearchRequest)
    (localized : Bool) : Action (Except Problem (List Json)) := do
  let root ← rootOr root
  let query := Text.strip (← Action.ofExcept (preparedValue r.query))
  let limit ← Action.ofExcept (r.limit.clamp 1 500)
  let p ← Layout.catalogue root v.name
  if ← Action.isFile p then
    match ← Action.attempt (searchDatabase p { r with query := .str query, limit }) with
    | .ok rows => return .ok rows
    | .error e => return .error (← searchProblem e localized)
  else
    let message ← messageOr localized "cli.query.no_db" [("version", .str v.name)]
      ("Database for version " ++ v.name ++ " does not exist. Run prism index first.")
    return .error ⟨"no_db", message, []⟩

end JarAtlas
