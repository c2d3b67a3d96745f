import JarAtlas.Workspace.Layout

/-!
Finding the server's JAR file.
-/

namespace JarAtlas

namespace Detection

def hasClasses (entries : List ArchiveEntry) : Bool :=
  (entries.take 50).any fun e =>
    Text.startsWith e.name "META-INF/" || Text.endsWith e.name ".class"

def isJar (p : Path) : Action Bool := do
  match ← Action.look p with
  | some (.file content _) =>
    return Text.lower p.suffix == ".jar" && (content.entries?.any hasClasses)
  | _ => return false

def jarAt? (p : Path) : Action (Option Path) :=
  return if ← isJar p then some p else none

def folder : ServerVersion → String
  | .release => "release"
  | .prerelease => "pre-release"

def serverIn (install : Path) (v : ServerVersion) : Path :=
  ⟨install.slashes, install.parts ++
    ["install", folder v, "package", "game", "latest", "Server", Layout.serverName]⟩

/-- The servers of both version lines in an installation, where they are JAR files. -/
def serversIn (install : Path) : Action (Option Path × Option Path) := do
  let install ← Action.resolve install
  if ← Action.isDir install then
    let release ← jarAt? (serverIn install .release)
    let prerelease ← jarAt? (serverIn install .prerelease)
    return (release, prerelease)
  else return (none, none)

def isInstallation (p : Path) : Action Bool := do
  let install ← Action.resolve p
  if ← Action.isDir install then
    ServerVersion.all.anyM fun v => Action.isFile (serverIn install v)
  else return false

/-- The usual places: the game's directory and the directory of its server. -/
def usualPlaces : Action (List Path) := do
  match (← get).given? "APPDATA" with
  | none => return []
  | some s =>
    let install := Path.parse s / "Hytale"
    let server := install / "install" / "release" / "package" / "game" / "latest" / "Server"
    [install, server].filterM Action.isDir

/-- The parts of a path with the version line after the first `install` exchanged. -/
def exchanged? : List String → Option (List String)
  | [] => none
  | "install" :: "release" :: rest => some ("install" :: "pre-release" :: rest)
  | "install" :: "pre-release" :: rest => some ("install" :: "release" :: rest)
  | "install" :: _ => none
  | part :: rest => (exchanged? rest).map (part :: ·)

def sibling? (jar : Path) : Action (Option Path) := do
  match exchanged? (← Action.resolve jar).parts with
  | some parts => jarAt? (Path.absolute parts)
  | none => return none

def findIn? (dir : Path) (name : Json) : Action (Option Path) := do
  if ← Action.isDir dir then
    let name ← Action.ofExcept name.pathText
    let place ← Action.locate dir
    let inside := ((← get).files.names place).map fun child =>
      Path.mk dir.slashes (dir.parts ++ [child])
    let direct := dir / name
    if ← Action.isFile direct then return some direct
    else
      inside.findSomeM? fun child => do
        if ← Action.isDir child then
          let candidate := child / name
          return if ← Action.isFile candidate then some candidate else none
        else return none
  else return none

def firstServer? (install : Path) : Action (Option Path) := do
  match ← serversIn install with
  | (some p, _) => return some p
  | (none, p) => return p

def serverAt? (place : Path) : Action (Option Path) := do
  if ← isInstallation place then firstServer? place
  else
    match ← findIn? place (.str Layout.serverName) with
    | some p => jarAt? p
    | none => return none

def namedServer? : Action (Option Path) := do
  match (← get).given? "HYTALE_JAR_PATH" with
  | none => return none
  | some s =>
    let p ← Action.resolve (Path.parse s)
    if (← Action.isDir p) && (← isInstallation p) then firstServer? p
    else jarAt? p

end Detection

namespace Settings

def fileAt? (p : Option Path) : Action (Option Path) := do
  match p with
  | some p => return if ← Action.isFile p then some p else none
  | none => return none

def jar? (root : Path) : Action (Option Path) := do
  fileAt? (← Action.ofExcept (path? (← load root) "jar_path"))

def ownJar? (root : Path) (name : String) : Action (Option Path) := do
  fileAt? (← Action.ofExcept (path? (← load root) name))

def slashed (p : Path) : String :=
  Text.replace p.text "\\" "/"

def releaseJar? (root : Path) : Action (Option Path) := do
  match ← ownJar? root "jar_path_release" with
  | some p => return some p
  | none =>
  match ← jar? root with
  | none => return none
  | some jar =>
    if Text.contains (slashed jar) "release" then return some jar
    else if Text.contains (slashed jar) "pre-release" then Detection.sibling? jar
    else return some jar

def prereleaseJar? (root : Path) : Action (Option Path) := do
  match ← ownJar? root "jar_path_prerelease" with
  | some p => return some p
  | none =>
  match ← jar? root with
  | none => return none
  | some jar =>
    if Text.contains (slashed jar) "pre-release" then return some jar
    else if Text.contains (slashed jar) "release" then Detection.sibling? jar
    else return none

/-- The JAR file of a version: every other version than the release is a pre-release. -/
def jarOf? (root : Path) (version : String) : Action (Option Path) :=
  if version == "release" then releaseJar? root else prereleaseJar? root

/-- The first decompiler: the one that is set, or else the one in the workspace. -/
def jadx? (root : Path) : Action (Option Path) := do
  let set ← (← Action.ofExcept (path? (← load root) "jadx_path")).mapM Action.resolve
  match ← fileAt? set with
  | some p => return some p
  | none => fileAt? (some (← Layout.jadx root))

def assetArchive? (root : Path) (version : String) : Action (Option Path) := do
  match ← jarOf? root version with
  | none => return none
  | some jar =>
    let archive := jar.parent.parent / "Assets.zip"
    return if ← Action.isThere archive then some archive else none

end Settings

namespace Detection

/-- The server: the one that the environment names, the one that is set, or one at a usual place. -/
def server? (root : Path) : Action (Option Path) := do
  match ← namedServer? with
  | some p => return some p
  | none =>
    let set ← Settings.jar? root
    match ← (set.map jarAt?).getD (pure none) with
    | some p => return some p
    | none => (← usualPlaces).findSomeM? serverAt?

end Detection

end JarAtlas
