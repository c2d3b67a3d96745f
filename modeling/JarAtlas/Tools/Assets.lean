import JarAtlas.Assets.Index
import JarAtlas.Text.Base64
import JarAtlas.Tools.Code
import JarAtlas.Workspace.Detection

/-!
The tools that answer questions about the assets of the game.
-/

namespace JarAtlas

namespace Tools

def assetItem (a : Asset) : Json :=
  .obj ([
    ("path", .str a.path),
    ("category", .ofText? a.category),
    ("internal_id", .ofText? a.internalId),
    ("extension", .str a.extension),
    ("size_bytes", a.size.toJson)] ++
    (a.dimensions?.map fun d => ("dimensions", Json.str d)).toList)

def searchAssets (args : Arguments) : Action Json := do
  let v := version args
  let root ← rootOr none
  let p ← Layout.assets root v.name
  if !(← Action.isThere p) then
    return problem "db_not_found" ("Assets database for " ++ v.name ++ " not found.")
  else
    let query := args.value "query"
    let found ← Action.queryDatabase p fun d => d.searchAssets query (args.value "limit")
    return .str (Json.pretty (.obj [
      ("version", .str v.name),
      ("query", query),
      ("count", .ofNat found.length),
      ("results", .arr (found.map assetItem))]))

/-- How many characters of a text are shown, and how many are left when there are more. -/
def textShown : Nat × Nat := (50000, 500)

/-- How many characters of encoded bytes are shown, and how many are left when there are more. -/
def encodedShown : Nat × Nat := (100000, 1000)

def contentFields (bytes : Bytes) : List (String × Json) :=
  match Utf8.decode? bytes with
  | some cs =>
    let size := cs.length
    let shown := if size > textShown.1 then [
        ("content_summary", Json.str ("File is too large (" ++ toString size ++
          " bytes). Showing first 500 characters.")),
        ("content", .str (String.ofList (cs.take textShown.2) ++ "\n... [TRUNCATED] ...")),
        ("is_truncated", .bool true)]
      else [("content", .str (String.ofList cs))]
    shown ++ [("encoding", .str "utf-8")]
  | none =>
    let cs := Base64.encode bytes
    let shown := if cs.length > encodedShown.1 then [
        ("content", Json.str (String.ofList (cs.take encodedShown.2) ++
          "... [BASE64 TRUNCATED] ...")),
        ("is_truncated", .bool true)]
      else [("content", .str (String.ofList cs))]
    shown ++ [("encoding", .str "base64")]

def inspectAsset (args : Arguments) : Action Json := do
  let v := version args
  let root ← rootOr none
  let path := args.value "asset_path"
  let p ← Layout.assets root v.name
  let info ← if ← Action.isThere p then Action.queryDatabase p fun d => d.asset path else pure none
  match ← Settings.assetArchive? root v.name with
  | none => return problem "assets_not_found" ("Assets.zip for " ++ v.name ++ " not found.")
  | some archive =>
    match ← Assets.inspect archive path with
    | none =>
      return problem "asset_not_found"
        ("Asset " ++ path.display ++ " not found in " ++ v.name ++ ".")
    | some bytes =>
      return .str (Json.pretty (.obj ([
        ("path", path),
        ("version", .str v.name),
        ("category", .ofText? (info.bind (·.category))),
        ("internal_id", .ofText? (info.bind (·.internalId)))] ++
        ((info.bind Asset.dimensions?).map fun d => ("dimensions", Json.str d)).toList ++
        contentFields bytes)))

end Tools

end JarAtlas
