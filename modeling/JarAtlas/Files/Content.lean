import JarAtlas.Assets.Table
import JarAtlas.Text.Utf8

/-!
What files hold: bytes, an archive, or a database.
-/

namespace JarAtlas

/-- A database: the tables that were made in it. A file that holds something else is seen as a
database that cannot be read. -/
structure Database where
  api : Option Catalogue := none
  assets : Option AssetTable := none
  isReadable : Bool := true
  deriving DecidableEq, Repr

inductive Content where
  | bytes (bs : Bytes)
  | archive (entries : List (String × Content × Bool))
  | database (d : Database)
  deriving Inhabited

/-- An entry of an archive: its name, its content and whether that is locked by a password. -/
abbrev ArchiveEntry := String × Content × Bool

namespace ArchiveEntry

/-- An entry of a name, which ends before the first null character. -/
def make (name : String) (content : Content) (isLocked : Bool) : ArchiveEntry :=
  (String.ofList (name.toList.takeWhile (·.toNat != 0)), content, isLocked)

def name (e : ArchiveEntry) : String := e.1

def content (e : ArchiveEntry) : Content := e.2.1

def isLocked (e : ArchiveEntry) : Bool := e.2.2

end ArchiveEntry

namespace Content

def ofText (s : String) : Content :=
  bytes (Utf8.encode s.toList)

def plain : Content → Bytes
  | bytes bs => bs
  | _ => []

def entries? : Content → Option (List ArchiveEntry)
  | archive entries => some entries
  | _ => none

def database? : Content → Option Database
  | database d => some d
  | bytes [] => some {}
  | _ => none

/-- The text of the content: bytes that are no text are replaced, and lines end in `\n`. -/
def text (c : Content) : List Char :=
  Utf8.normalizeNewlines (Utf8.decodeReplacing c.plain)

def strictText? (c : Content) : Option (List Char) :=
  (Utf8.decode? c.plain).map Utf8.normalizeNewlines

end Content

def entryNamed? (entries : List ArchiveEntry) (name : String) : Option ArchiveEntry :=
  entries.reverse.find? fun e => e.name == name

def isFolderName (name : String) : Bool :=
  Text.endsWith name "/"

end JarAtlas
