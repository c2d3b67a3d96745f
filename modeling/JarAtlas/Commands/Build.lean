import JarAtlas.Assets.Index
import JarAtlas.Catalogue.Build
import JarAtlas.Commands.Detect
import JarAtlas.Decompiler.Run

/-!
The commands that decompile servers and build catalogues and tables of assets.
-/

namespace JarAtlas

namespace Commands

def installedVersions (root : Path) : Action (List String) := do
  let release ← Settings.releaseJar? root
  let prerelease ← Settings.prereleaseJar? root
  let found := (if release.isSome then ["release"] else []) ++
    (if prerelease.isSome then ["prerelease"] else [])
  if found.isEmpty then
    return if (← Settings.jar? root).isSome then ["release"] else []
  else return found

/-- The versions that an argument means: the active one if there is none. -/
def chosenVersions (root : Path) : Option String → Action (List String)
  | none => return [(← Settings.activeVersion root).name]
  | some "all" => installedVersions root
  | some v => return [v]

def isVersionChoice : Option String → Bool
  | none => true
  | some v => v == "all" || (ServerVersion.ofName? v).isSome

def announceDecompiler (root : Path) (engine : Json) : Action Unit := do
  let name ← Decompile.chosenEngine root engine
  tellPhase "cli.build.phase_decompile" [("engine", name)]
  tellWarning "cli.decompile.may_take" []

def announceRun (report : RunReport) : Action Unit :=
  tellSuccess "cli.decompile.success_stats"
    [("files", .ofNat report.files), ("time", .str (report.seconds.onePlace ++ "s"))]

def refuseDecompile (e : DecompileFailure) : Action Nat :=
  refuse ("cli.decompile." ++ e.key) []

def decompile (root : Path) (version : Option String) (engine : Json) : Action Nat := do
  if isVersionChoice version then
    match ← chosenVersions root version with
    | [] => refuse "cli.decompile.no_jar" []
    | versions =>
      announceDecompiler root engine
      match ← Decompile.versions root engine (versions.map .str) with
      | .ok reports =>
        reports.forM announceRun
        return 0
      | .error e => refuseDecompile e
  else refuse "cli.context.use.invalid" []

def statsValues (version : String) (stats : Nat × Nat × Nat) : List (String × Json) :=
  [("classes", .ofNat stats.1), ("methods", .ofNat stats.2.1), ("constants", .ofNat stats.2.2),
    ("version", .str version)]

def indexAll (root : Path) : List String → Action Nat
  | [] => return 0
  | v :: vs => do
    match ← indexVersion root v with
    | .ok stats =>
      tellSuccess "cli.index.success" (statsValues v stats)
      indexAll root vs
    | .error .noCode => indexAll root vs
    | .error .database => refuse "cli.index.db_error" []

def index (root : Path) (version : Option String) : Action Nat := do
  if isVersionChoice version then
    match ← chosenVersions root version with
    | [] => refuse "cli.decompile.no_jar" []
    | versions => indexAll root versions
  else refuse "cli.context.use.invalid" []

def buildAssets (root archive : Path) (version : String) : Action Unit := do
  let database ← Layout.assets root version
  let label ← Console.beforeProgress
    (Messages.say "cli.assets.indexing" [("version", .str version)])
  Console.withNamedProgress label do
    let (reports, outcome) ← Assets.index database archive (.str version)
    return (reports.getLast?.map fun r => (Path.parse r.1).name, outcome)
  tellSuccess "cli.assets.success" [("version", .str version)]

/-- Builds the tables of assets of versions; of those without an archive something is said. -/
def buildAllAssets (root : Path) (tellMissing : String → List (String × Json) → Action Unit)
    (versions : List String) : Action Unit :=
  versions.forM fun v => do
    match ← Settings.assetArchive? root v with
    | some archive => buildAssets root archive v
    | none => tellMissing "cli.assets.not_found" [("version", .str v)]

def indexAssets (root : Path) (version : Option String) : Action Nat := do
  match ← chosenVersions root version with
  | [] => refuse "cli.decompile.no_jar" []
  | versions =>
    buildAllAssets root tellError versions
    return 0

structure BuildRequest where
  version : Option String := none
  allVersions : Bool := false
  withAssets : Bool := false
  engine : Json := .null

/-- The versions of a build: the release line if none is named. -/
def BuildRequest.versions (r : BuildRequest) (root : Path) : Action (List String) :=
  if r.allVersions || r.version == some "all" then installedVersions root
  else return [r.version.getD "release"]

def indexBuilt (root : Path) : List String → Action Bool
  | [] => return true
  | v :: vs => do
    match ← indexVersion root v with
    | .ok stats =>
      tellSuccess "cli.build.indexed" (statsValues v stats)
      indexBuilt root vs
    | .error .noCode =>
      tellPhase "cli.build.skipped_no_code" [("version", .str v)]
      indexBuilt root vs
    | .error .database =>
      tellError "cli.index.db_error" []
      return false

def finishBuild (root : Path) (r : BuildRequest) (versions : List String) : Action Nat := do
  tellPhase "cli.build.phase_decompile_done" []
  tellPhase "cli.build.phase_index" []
  if ← indexBuilt root versions then
    if r.withAssets then
      tellPhase "cli.build.phase_assets" []
      buildAllAssets root tellPhase versions
    tellSuccess "cli.build.success" []
    return 0
  else return 1

def buildVersions (root : Path) (r : BuildRequest) (versions : List String) : Action Nat := do
  announceDecompiler root r.engine
  match ← Decompile.versions root r.engine (versions.map .str) with
  | .error e =>
    tellError "cli.build.decompile_failed" []
    refuseDecompile e
  | .ok reports =>
    reports.forM announceRun
    finishBuild root r versions

def build (root : Path) (r : BuildRequest) : Action Nat := do
  if (← detect root) != 0 then return 1
  else if isVersionChoice r.version then
    match ← r.versions root with
    | [] => refuse "cli.decompile.no_jar" []
    | versions => buildVersions root r versions
  else refuse "cli.context.use.invalid" []

end Commands

end JarAtlas
