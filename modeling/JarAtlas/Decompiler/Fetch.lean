import JarAtlas.Console.Say
import JarAtlas.Files.Address
import JarAtlas.Messages.Phrase
import JarAtlas.Workspace.Layout

/-!
Fetching the decompilers. What is fetched is first written beside its target and then put in its
place, so that a target is either the old file or the whole new one.
-/

namespace JarAtlas

namespace Fetch

/-- Does something with a file; what goes wrong with the file is why it cannot be reached. -/
def reaching (a : Action α) : Action α := do
  match ← Action.attempt a with
  | .ok r => return r
  | .error (.file e path) => throw (.unreachable (Fault.file e path).message)
  | .error e => throw e

/-- The file that an address names, if it can be opened. Without a network only files on this
machine can. -/
def openAddress (address : String) : Action Path := do
  match FileAddress.parse? address with
  | none => throw (.unreachable "no network")
  | some a =>
    if a.isElsewhere then
      throw (.unreachable (if a.machine == FileAddress.thisMachine then "unknown url type: file"
        else "file:// scheme is supported only on localhost"))
    reaching do
      let node ← Action.status a.fileName
      if ← Action.ofExcept a.isLocal then
        match node with
        | .file .. => return Path.parse a.fileName
        | .directory => throw (.file .isDirectory a.fileName)
      else throw (.unreachable "file not on local host")

def copyFile (source target : Path) : Action Unit := do
  Action.writeContent target (.bytes [])
  Action.writeContent target (← Action.readContent source)

/-- Fetches what an address names to a target, under a label, and says whether it could. An empty
label is replaced. -/
def download (address : String) (target : Path) (label : Json) : Action Bool := do
  Action.makeDirs target.parent
  let draft := target.withSuffix ".tmp"
  let label ← if label.isGiven then pure label
    else Messages.phrase "cli.decompile.downloading" []
  let outcome ← Action.attempt do
    let source ← openAddress address
    Console.withProgress label.display (copyFile source draft)
    Action.moveFile draft target
  match outcome with
  | .ok () => return true
  | .error e =>
    if ← Action.isThere draft then Action.removeFile draft
    Action.printError ("\nError downloading " ++ address ++ ": " ++ e.message ++ "\n")
    return false

/-- The entry that holds the first decompiler: the first one of its name in a directory `lib`. -/
def decompilerIn? (entries : List ArchiveEntry) : Option String :=
  (entries.map ArchiveEntry.name).find? fun name =>
    Text.endsWith name ("/lib/" ++ Layout.jadxName) || name == "lib/" ++ Layout.jadxName

def unpack (archive target : Path) : Action Bool := do
  let outcome ← Action.attempt do
    let entries ← Action.readArchive archive
    match (decompilerIn? entries).bind (entryNamed? entries) with
    | none =>
      Action.print ("Error: Could not find " ++ Layout.jadxName ++ " in JADX zip.\n")
      return false
    | some e =>
      Action.writeContent target (← Action.readEntry e)
      return true
  match outcome with
  | .ok done => return done
  | .error e =>
    Action.print ("Error extracting JADX: " ++ e.message ++ "\n")
    return false

def discard (p : Path) : Action Unit := do
  if ← Action.isThere p then Action.removeFile p

def jadx (root : Path) : Action (Option Path) := do
  let jar ← Layout.jadx root
  if ← Action.isFile jar then return some jar
  else
    let address := Layout.jadxSource (← get)
    let label ← Messages.phrase "cli.decompile.downloading" []
    let dir ← Layout.tools root
    Action.makeDirs dir
    let archive := dir / ("jadx-" ++ Layout.jadxVersion ++ ".zip")
    discard archive
    if ← download address archive label then
      let done ← unpack archive jar
      discard archive
      return if done then some jar else none
    else return none

def vineflower (root : Path) (address : String) : Action (Option Path) := do
  let jar ← Layout.vineflower root
  if ← Action.isFile jar then return some jar
  else
    let label ← Messages.phrase "cli.decompile.downloading_engine"
      [("engine", .str "Vineflower")]
    if ← download address jar label then return some jar else return none

end Fetch

end JarAtlas
