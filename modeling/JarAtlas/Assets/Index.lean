import JarAtlas.Assets.Category
import JarAtlas.Assets.Image
import JarAtlas.Host.Connect

/-!
Building the table of assets from an archive. Of files in JSON formats the text is kept, with the id
and the type that it gives, and of images the dimensions.
-/

namespace JarAtlas

namespace Assets

def jsonExtensions : List String :=
  [".json", ".blockyanim", ".item", ".recipe", ".entity", ".particlespawner", ".particlesystem"]

def textLimit : Nat := 512 * 1024

def keptText (content : Content) : List Char :=
  Utf8.decodeIgnoring (content.plain.take textLimit)

/-- The id and the type that a text in a JSON format gives; it is read only if an id seems to be in
it. -/
def idAndType (text : List Char) : Json × Json :=
  if Text.occursIn "\"id\":".toList text then
    match Json.parse? text with
    | some (.obj fields) =>
      ((Json.lookup "id" fields).getD .null, (Json.lookup "type" fields).getD .null)
    | _ => (.null, .null)
  else (.null, .null)

structure Facts where
  category : Json
  internalId : Json := .null
  width : Json := .null
  height : Json := .null
  metadata : Json := .null

def extensionOf (path : String) : String :=
  Text.lower (Path.parse path).suffix

/-- What an entry says about its asset. Of a locked entry only the name is known. -/
def factsOf (e : ArchiveEntry) : Facts :=
  let folder := category e.name
  let base : Facts := { category := .ofText? folder }
  if e.isLocked then base
  else if jsonExtensions.contains (extensionOf e.name) then
    let text := keptText e.content
    let (id, type) := idAndType text
    { base with
      category := if folder.isSome then .ofText? folder else type
      internalId := id
      metadata := .str (String.ofList text) }
  else if extensionOf e.name == ".png" then
    match pngDimensions (e.content.plain.take 24) with
    | some (w, h) => { base with width := .ofNat w, height := .ofNat h }
    | none => base
  else base

def newAsset (version : Json) (e : ArchiveEntry) : Except Fault NewAsset := do
  let facts := factsOf e
  let cells ← Cell.ofJsons [.str e.name, .str (extensionOf e.name),
    .ofNat e.content.plain.length, facts.category, facts.internalId, facts.width, facts.height,
    facts.metadata, version]
  match cells with
  | [path, extension, size, category, internalId, width, height, metadata, version] =>
    return { path, extension, size, category, internalId, width, height, metadata, version }
  | _ => throw .noKey

/-- The asset of a name among entries, where a name means the last entry of that name. A directory
gives none, and an empty name cannot be told from one. -/
def assetNamed (version : Json) (entries : List ArchiveEntry) (name : String) :
    Except Fault (Option NewAsset) :=
  if name == "" then .error .noPlace
  else if isFolderName name then .ok none
  else
    match entryNamed? entries name with
    | none => .ok none
    | some e => some <$> newAsset version e

def insertAll (version : Json) (entries : List ArchiveEntry) :
    Work → List String → Except Fault Work
  | w, [] => .ok w
  | w, name :: names => do
    match ← assetNamed version entries name with
    | none => insertAll version entries w names
    | some a => insertAll version entries (← w.insertAsset a) names

abbrev Report := String × Nat × Nat

/-- The reports on the way through entries, up to the first that gives no asset by a fault: every
hundredth name is reported, unless it is a directory's. -/
def reports (version : Json) (entries : List ArchiveEntry) : List Report :=
  let names := entries.map ArchiveEntry.name
  let isGood (name : String) : Bool := match assetNamed version entries name with
    | .ok _ => true
    | .error _ => false
  ((names.takeWhile isGood).zipIdx.filter fun (name, i) => i % 100 == 0 && !isFolderName name).map
    fun (name, i) => (name, i, names.length)

/-- Builds the table of assets of a version anew, if there is an archive. Gives the reports on the
way and the outcome. -/
def index (database archive : Path) (version : Json) :
    Action (List Report × Except Fault Unit) := do
  if ← Action.isThere archive then
    let entries ← Action.readArchive archive
    let c ← Connection.start database
    let (_, c) ← c.changeNow fun w => .ok ((), w.makeAssets)
    let names := entries.map ArchiveEntry.name
    let outcome ← Action.attempt
      (c.changeNow fun w => return ((), ← insertAll version entries w names))
    return (reports version entries, outcome.map fun _ => ())
  else return ([], .ok ())

def inspect (archive : Path) (path : Json) : Action (Option Bytes) := do
  if ← Action.isThere archive then
    let outcome ← Action.attempt do
      let entries ← Action.readArchive archive
      let name ← Action.ofExcept path.asText
      match entryNamed? entries (Text.replace name "\\" "/") with
      | none => return none
      | some e => return some (← Action.readEntry e).plain
    match outcome with
    | .ok bytes => return bytes
    | .error _ => return none
  else return none

end Assets

def Asset.toJson (a : Asset) : Json :=
  .obj [
    ("path", .str a.path),
    ("extension", .str a.extension),
    ("size", a.size.toJson),
    ("version", .str a.version),
    ("category", .ofText? a.category),
    ("internal_id", .ofText? a.internalId),
    ("width", a.width.toJson),
    ("height", a.height.toJson),
    ("metadata", .ofText? a.metadata)]

def Asset.dimensions? (a : Asset) : Option String :=
  if a.width.isGiven && a.height.isGiven then
    some (a.width.toJson.display ++ "x" ++ a.height.toJson.display)
  else none

end JarAtlas
