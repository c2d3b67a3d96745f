import JarAtlas.Catalogue.Insert
import JarAtlas.FullText.Ranking

/-!
The table of assets, one row a path, and the full-text entries for them.
-/

namespace JarAtlas

structure Asset where
  path : String
  extension : String
  size : Cell
  version : String
  category : Option String := none
  internalId : Option String := none
  width : Cell := .null
  height : Cell := .null
  metadata : Option String := none
  deriving DecidableEq, Repr

def assetName (path : String) : String :=
  (Text.split path '/').getLast?.getD ""

structure AssetEntry where
  id : Nat
  path : Cell
  category : Cell
  internalId : Cell
  metadata : Cell
  deriving DecidableEq, Repr

structure AssetTable where
  assets : Table Asset := {}
  entries : List AssetEntry := []
  deriving DecidableEq, Repr

structure NewAsset where
  path : Cell
  extension : Cell
  size : Cell
  category : Cell := .null
  internalId : Cell := .null
  width : Cell := .null
  height : Cell := .null
  metadata : Cell := .null
  version : Cell
  deriving DecidableEq, Repr

def NewAsset.row (new : NewAsset) : Except Fault Asset := do
  let path ← require "assets.path" new.path.asText
  let extension ← require "assets.extension" new.extension.asText
  let size ← require "assets.size" (if new.size == .null then none else some new.size.asWhole)
  let version ← require "assets.version" new.version.asText
  return {
    path, extension, size, version
    category := new.category.asText
    internalId := new.internalId.asText
    width := new.width.asWhole
    height := new.height.asWhole
    metadata := new.metadata.asText }

def assetScheme : FullText.Scheme :=
  ⟨["path", "category", "internal_id", "metadata"], .trigrams⟩

namespace AssetEntry

def texts (e : AssetEntry) : List (List Char) :=
  [e.path, e.category, e.internalId, e.metadata].map fun cell => (cell.asText.getD "").toList

end AssetEntry

namespace AssetTable

def nextEntry (t : AssetTable) : Nat :=
  (t.entries.foldl (fun n e => max n e.id) 0) + 1

/-- Inserts an asset in place of one with the same path, and always a further entry. -/
def insert (t : AssetTable) (new : NewAsset) : Except Fault AssetTable := do
  let row ← new.row
  let others := t.assets.rows.filter fun old => old.path != row.path
  let assets := (Table.mk others t.assets.lastId).push fun _ => row
  return {
    assets
    entries := t.entries ++
      [⟨t.nextEntry, new.path, new.category, new.internalId, new.metadata⟩] }

def find? (t : AssetTable) (path : String) : Option Asset :=
  t.assets.rows.find? fun a => a.path == path

def search (t : AssetTable) (query : String) : Except FullText.QueryError (List Asset) := do
  let found ← FullText.search assetScheme AssetEntry.texts query.toList t.entries
  return found.filterMap fun e => e.path.text?.bind t.find?

end AssetTable

end JarAtlas
