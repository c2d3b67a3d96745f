import JarAtlas.Host.Files
import JarAtlas.Store.Database

/-!
Databases in files. Opening one makes its directories and an empty file; changes reach the file when
they are committed.
-/

namespace JarAtlas

structure Work where
  database : Database
  lastRow : Nat

namespace Connection

/-- The greatest size of the anchored name of a database, in bytes. -/
def maxNameSize : Nat := 510

def start (p : Path) : Action Connection := do
  Action.makeDirs p.parent
  if p.hasNull then throw .nullInPath
  let full ← Action.resolve p
  if maxNameSize < full.text.utf8ByteSize || FileTree.maxPartSize < p.name.utf8ByteSize then
    throw (.store .cannotOpen)
  let place ← Action.locate p
  match (← get).files.get? place with
  | some .directory => throw (.store .cannotOpen)
  | some (.file ..) => return { path := p }
  | none =>
    Action.store place (.bytes [])
    return { path := p }

def view (c : Connection) : Action Database := do
  match c.draft with
  | some d => return d
  | none =>
    match ← Action.look c.path with
    | some (.file content _) =>
      match content.database? with
      | some d => return d
      | none => return { isReadable := false }
    | _ => return {}

/-- The answer to a question. What it asks with is looked at before the file is read. -/
def query (c : Connection) (f : Database → Except Fault α) : Action α := do
  Action.ofExcept (f (← c.view))

/-- Whether another connection has changes of the same file that are not committed. -/
def isBlocked (c : Connection) (h : Host) : Bool :=
  c.draft.isNone && h.connection.any fun other =>
    other.draft.isSome && other.path.resolve h.here == c.path.resolve h.here

def change (c : Connection) (f : Work → Except Fault (α × Work)) : Action (α × Connection) := do
  if c.isBlocked (← get) then throw (.store .locked)
  let d ← c.view
  if !d.isReadable then throw (.store .notDatabase)
  let (a, work) ← Action.ofExcept (f ⟨d, c.lastRow⟩)
  return (a, { c with lastRow := work.lastRow, draft := some work.database })

def commit (c : Connection) : Action Connection := do
  match c.draft with
  | none => return c
  | some d =>
    Action.store (← Action.locate c.path) (.database d)
    return { c with draft := none }

def changeNow (c : Connection) (f : Work → Except Fault (α × Work)) :
    Action (α × Connection) := do
  let (a, c) ← c.change f
  return (a, ← c.commit)

end Connection

namespace Action

def queryDatabase (p : Path) (f : Database → Except Fault α) : Action α := do
  let c ← Connection.start p
  c.query f

end Action

namespace Work

/-- The number of the last inserted row after tables were made. -/
def rowAfterMaking : Nat := 10

def makeCatalogue (w : Work) : Work :=
  ⟨{ w.database with api := some {} }, rowAfterMaking⟩

def makeAssets (w : Work) : Work :=
  ⟨{ w.database with assets := some {} }, rowAfterMaking⟩

def clearCatalogue (w : Work) : Except Fault Work := do
  let c ← w.database.catalogue "api_fts"
  return { w with database.api := some c.clear }

/-- Writes to the catalogue; `table` is the one that is written to. -/
def write (w : Work) (table : String) (f : Writer → Except Fault (α × Writer)) :
    Except Fault (α × Work) := do
  let c ← w.database.catalogue table
  let (a, writer) ← f ⟨c, w.lastRow⟩
  return (a, ⟨{ w.database with api := some writer.catalogue }, writer.lastRow⟩)

def insertAsset (w : Work) (new : NewAsset) : Except Fault Work := do
  let t ← w.database.assetTable "assets"
  let t ← t.insert new
  return ⟨{ w.database with assets := some t }, (t.entries.getLast?.map (·.id)).getD 0⟩

end Work

end JarAtlas
