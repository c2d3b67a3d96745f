import JarAtlas.Explore.CallFlow
import JarAtlas.Explore.Details
import JarAtlas.Explore.Hierarchy
import JarAtlas.Explore.Patterns

/-!
The tools that answer questions about the code of the server. Each takes values by name and gives a
JSON text.
-/

namespace JarAtlas

abbrev Arguments := List (String × Json)

/-- The parameters of a tool, each with the value it has when it is not given. -/
abbrev Parameters := List (String × Option Json)

/-- The value of each parameter. All names must be known, and parameters without a default given. -/
def Parameters.bind (ps : Parameters) (args : Arguments) : Except Fault Arguments := do
  if args.any fun a => !ps.any fun p => p.1 == a.1 then throw (.wrongKind "")
  ps.mapM fun (name, default) =>
    match (Json.lookup name args).or default with
    | some v => return (name, v)
    | none => throw (.wrongKind "")

namespace Arguments

def value (args : Arguments) (name : String) : Json :=
  (Json.lookup name args).getD .null

def flag (args : Arguments) (name : String) : Bool :=
  (args.value name).isGiven

def textOr (args : Arguments) (name : String) : Except Fault String :=
  (args.value name).givenText

/-- The texts of parameters without blanks around them, if none is blank. Parameters after a blank
one are not looked at. -/
def filled? (args : Arguments) : List String → Except Fault (Option (List String))
  | [] => .ok (some [])
  | name :: names => do
    let s := Text.strip (← args.textOr name)
    if s == "" then return none
    else return (← filled? args names).map (s :: ·)

def rows (args : Arguments) (name : String) : Except Fault Json :=
  return .int (clamp 1 500 (← (args.value name).toWhole))

end Arguments

namespace Tools

def version (args : Arguments) : ServerVersion :=
  .ofValue (args.value "version")

def answer (v : Json) : Json :=
  .str v.compact

def problem (kind message : String) : Json :=
  answer (Problem.toJson ⟨kind, .str message, []⟩)

def reply (r : Except Problem α) (f : α → Json) : Json :=
  match r with
  | .ok a => answer (f a)
  | .error p => answer p.toJson

def contextList (_ : Arguments) : Action Json :=
  return answer (← showContext none)

def indexStats (args : Arguments) : Action Json := do
  return reply (← showStats none (args.value "version")) id

/-- The package and class that a tool is asked for. A full name wins over the other two. -/
def classNames (args : Arguments) : Except Fault (String × String) := do
  let package := Text.strip (← args.textOr "package")
  let name := Text.strip (← args.textOr "class_name")
  let full := Text.strip (← args.textOr "fqcn")
  if full == "" then return (package, name)
  else
    match Query.splitName? full with
    | some (package, name) => return (package, name)
    | none => return (package, full)

def getClass (args : Arguments) : Action Json := do
  let v := version args
  let (package, name) ← Action.ofExcept (classNames args)
  if name == "" then return problem "missing_params" "Provide class_name or fqcn."
  else
    let found ← showClass none v (.str package) (.str name) (args.flag "include_source")
    return reply found fun fields => .obj (("version", .str v.name) :: fields)

def getMethod (args : Arguments) : Action Json := do
  let v := version args
  match ← Action.ofExcept (args.filled? ["package", "class_name", "method_name"]) with
  | some [package, name, method] =>
    let found ← showMethod none v (.str package) (.str name) (.str method)
    return reply found fun fields => .obj (("version", .str v.name) :: fields)
  | _ => return problem "missing_params" "package, class_name and method_name are required"

def listClasses (args : Arguments) : Action Json := do
  let v := version args
  let package := Text.strip (← Action.ofExcept (args.textOr "package_prefix"))
  if package == "" then return problem "missing_param" "package_prefix is required"
  else
    let limit ← match args.value "limit" with
      | .null => pure (.int 100)
      | _ => Action.ofExcept (args.rows "limit")
    let offset ← match args.value "offset" with
      | .null => pure (.int 0)
      | o => pure (.int (max 0 (← Action.ofExcept o.toWhole)))
    let found ← JarAtlas.listClasses none v (.str package) (args.flag "prefix_match") limit offset
    return reply found fun classes => .obj [
      ("version", .str v.name),
      ("package_prefix", .str package),
      ("prefix_match", args.value "prefix_match"),
      ("count", .ofNat classes.length),
      ("classes", .arr classes)]

def listPackages (args : Arguments) : Action Json := do
  let v := version args
  let found ← JarAtlas.listPackages none v (args.value "package_prefix")
  return reply found fun packages => .obj [
    ("version", .str v.name),
    ("package_prefix", args.value "package_prefix"),
    ("count", .ofNat packages.length),
    ("packages", .arr packages)]

def layers : List (String × String) := [
  ("core", "com.hypixel.hytale.server.core"),
  ("plugins", "com.hypixel.hytale.builtin"),
  ("npc", "com.hypixel.hytale.server.npc"),
  ("ui", "com.hypixel.hytale.server.core.ui")]

def layerPackage? (layer : String) : Option String :=
  (layers.find? fun l => l.1 == Text.lower layer).map (·.2)

def search (args : Arguments) : Action Json := do
  let value := args.value "query"
  if !value.isGiven || Text.strip value.display == "" then
    return problem "missing_query" "query is required"
  else
    let limit ← match args.value "limit" with
      | .null => pure (.int 30)
      | _ => Action.ofExcept (args.rows "limit")
    let v := version args
    let layer ← Action.ofExcept (args.textOr "layer")
    let query ← Action.ofExcept value.stripped
    let package := ((layerPackage? layer).map Json.str).getD (args.value "package_prefix")
    let found ← searchCatalogue none v {
      query := .str query, limit, package, kind := args.value "kind"
      onePerClass := args.flag "unique_classes" } true
    return reply found fun rows => .obj [
      ("version", .str v.name),
      ("term", .str query),
      ("count", .ofNat rows.length),
      ("results", .arr rows)]

def readSource (args : Arguments) : Action Json := do
  let found ← showSource none (version args) (args.value "file_path") (args.value "start_line")
    (args.value "end_line")
  return reply found id

def searchHelp (_ : Arguments) : Action Json :=
  return .str (
    "FTS5 search syntax (prism_search):\n" ++
    "- Single word: matches that token.\n" ++
    "- Quoted phrase: \"exact phrase\" matches the exact phrase.\n" ++
    "- AND: term1 AND term2 (both must appear).\n" ++
    "- OR: term1 OR term2 (either can appear).\n" ++
    "- Prefix: term* matches tokens that start with 'term'.\n" ++
    "Examples: GameManager, \"getPlayer\" AND server, spawn OR despawn.")

def findUsages (args : Arguments) : Action Json := do
  let v := version args
  let target := args.value "target_class"
  let found ← JarAtlas.findUsages none v target (args.value "limit")
  return reply found fun usages => .obj [
    ("version", .str v.name),
    ("target_class", target),
    ("count", .ofNat usages.length),
    ("usages", .arr (usages.map Usage.toJson))]

def findSystems (args : Arguments) : Action Json := do
  let root ← projectRoot none true
  let p ← Layout.namedCatalogue root (args.value "version")
  return .arr (← JarAtlas.findSystems p (args.value "component_name") (.int 100))

def usageSnippet (args : Arguments) : Action Json := do
  let root ← projectRoot none true
  return answer (← showAround root (args.value "version") (args.value "file_path")
    (args.value "target_string") (args.value "window"))

def detectPatterns (args : Arguments) : Action Json := do
  let root ← projectRoot none true
  let p ← Layout.namedCatalogue root (args.value "version")
  let package := args.value "package"
  let name := args.value "class_name"
  let patterns ← JarAtlas.detectPatterns p package name
  return answer (.obj [
    ("package", package),
    ("class_name", name),
    ("patterns", .arr (patterns.map .str))])

def getHierarchy (args : Arguments) : Action Json := do
  let v := version args
  let full ← Action.ofExcept (args.textOr "fqcn")
  if full != "" && !full.toList.contains '.' then
    return problem "invalid_fqcn" "FQCN must be package.Class"
  else
    let (package, name) := match Text.splitLast? '.' full.toList with
      | some (outer, last) => (Json.str (String.ofList outer), Json.str (String.ofList last))
      | none => (args.value "package", args.value "class_name")
    if !package.isGiven || !name.isGiven then
      return problem "missing_params" "package and class_name or fqcn are required"
    else
      let root ← projectRoot none true
      let p ← Layout.catalogue root v.name
      return answer (← showHierarchy p package name)

def findImplementations (args : Arguments) : Action Json := do
  let v := version args
  let limit ← Action.ofExcept (args.rows "limit")
  let found ← listImplementations none v (args.value "target_class") limit
  return reply found fun rows => .obj [
    ("version", .str v.name),
    ("target", args.value "target_class"),
    ("count", .ofNat rows.length),
    ("results", .arr rows)]

def getEvents (args : Arguments) : Action Json := do
  let v := version args
  let limit ← Action.ofExcept (args.rows "limit")
  let found ← listEvents none v limit
  return reply found fun (classes, methods) => .obj ([
    ("version", .str v.name),
    ("count_classes", .ofNat classes.length),
    ("count_subscriptions", .ofNat methods.length)] ++ eventFields classes methods)

def callFlow (args : Arguments) : Action Json := do
  let limit ← Action.ofExcept (args.rows "limit")
  let found ← findCalls none (version args) (args.value "target_class") (args.value "method_name")
    limit
  return reply found id

end Tools

end JarAtlas
