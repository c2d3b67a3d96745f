import JarAtlas.Host.Files

/-!
The slim copy of a server that is decompiled: it has only the classes of the game. A copy that is
later than its source is kept.
-/

namespace JarAtlas

namespace Slim

def corePackages : List String :=
  ["com/hypixel/hytale", "com/hypixel/fastutil"]

def isCore (name : String) : Bool :=
  corePackages.any (Text.startsWith name ·)

def isFresh (source copy : Path) : Action Bool := do
  let h ← get
  match ← Action.look copy with
  | none => return false
  | some made =>
    match ← Action.look source with
    | some node => return h.timeOf node < h.timeOf made
    | none => Action.failFile .missing source

def lostEntry : Fault := .other "Truncated file header"

/-- Copies the entries of the given names, and keeps those copied so far when one fails. A name
means the last entry of that name. When the copy takes the place of its source, all entries are
lost. -/
def copyEntries (source copy : Path) (done : List ArchiveEntry) : List String → Action Unit
  | [] => pure ()
  | name :: names => do
    match entryNamed? (← Action.readArchive source) name with
    | none => throw lostEntry
    | some e =>
      let content ← Action.readEntry e
      let done := done ++ [(name, content, false)]
      Action.writeContent copy (.archive done)
      copyEntries source copy done names

def make (source copy : Path) : Action Bool := do
  if ← isFresh source copy then return true
  else
    let outcome ← Action.attempt do
      let entries ← Action.readArchive source
      Action.writeContent copy (.archive [])
      copyEntries source copy [] ((entries.map ArchiveEntry.name).filter isCore)
    match outcome with
    | .ok () => return true
    | .error e =>
      Action.printError ("Error creating slim JAR: " ++ e.message ++ "\n")
      return false

end Slim

end JarAtlas
