import JarAtlas.Workspace.Settings

/-!
Where the parts of a workspace are.
-/

namespace JarAtlas

namespace Layout

def serverName : String := "HytaleServer.jar"

def jadxVersion : String := "1.5.3"

def jadxName : String := "jadx-" ++ jadxVersion ++ "-all.jar"

def jadxAddress : String :=
  "https://github.com/skylot/jadx/releases/download/v" ++ jadxVersion ++ "/jadx-" ++ jadxVersion ++
    ".zip"

def vineflowerVersion : String := "1.11.2"

def vineflowerName : String := "vineflower-" ++ vineflowerVersion ++ ".jar"

def vineflowerAddress : String :=
  "https://github.com/Vineflower/vineflower/releases/download/" ++ vineflowerVersion ++
    "/vineflower-" ++ vineflowerVersion ++ ".jar"

/-- The workspace of a project: the directory that the environment names, if it is one. -/
def workspace (root : Path) : Action Path := do
  match (← get).given? "PRISM_OUTPUT_DIR" with
  | some s =>
    if ← Action.isDir (Path.parse s) then return Path.parse s else return root / "workspace"
  | none => return root / "workspace"

def tools (root : Path) : Action Path :=
  return (← workspace root) / "bin"

def jadx (root : Path) : Action Path :=
  return (← tools root) / jadxName

def vineflower (root : Path) : Action Path :=
  return (← tools root) / vineflowerName

def decompiled (root : Path) (version : String) : Action Path :=
  return (← workspace root) / "decompiled" / version

def sources (root : Path) (version : String) : Action Path :=
  return (← workspace root) / "sources" / version

/-- The path that an environment variable names, blanks around it apart. -/
def namedBy? (name : String) : Action (Option Path) := do
  match ((← get).envVar? name).map Text.strip with
  | some s => if s == "" then return none else return some (← Action.resolve (Path.parse s))
  | none => return none

def databases (root : Path) : Action Path := do
  match ← namedBy? "PRISM_DB_DIR" with
  | some p => return p
  | none => return (← workspace root) / "db"

def catalogue (root : Path) (version : String) : Action Path := do
  let name := if version == "release" then "PRISM_DB_PATH_RELEASE" else "PRISM_DB_PATH_PRERELEASE"
  match ← namedBy? name with
  | some p => return p
  | none => return (← databases root) / ("prism_api_" ++ version ++ ".db")

/-- The database of the catalogue of the active version. Before there were versions it had another
name, which still counts while no version is set. -/
def activeCatalogue (root : Path) : Action Path := do
  match ← Action.ofExcept (Settings.activeVersion? (← Settings.load root)) with
  | some v => catalogue root v.name
  | none =>
    let old := (← workspace root) / "db" / "prism_api.db"
    if ← Action.isThere old then return old else catalogue root "release"

def assets (root : Path) (version : String) : Action Path :=
  return (← databases root) / ("prism_assets_" ++ version ++ ".db")

/-- The database of the catalogue of the version that a value names as it stands, or else of the
active one. -/
def namedCatalogue (root : Path) (version : Json) : Action Path :=
  if version == .null then activeCatalogue root else catalogue root version.display

def logs (root : Path) : Path :=
  root / "logs"

def jadxSource (h : Host) : String :=
  (h.envVar? "PRISM_JADX_URL").getD jadxAddress

def engineName (root : Path) : Action String := do
  match ← Action.ofExcept (Settings.field (← Settings.load root) "decompiler") with
  | none => return "jadx"
  | some v => return Text.lower (← Action.ofExcept v.asText)

end Layout

end JarAtlas
