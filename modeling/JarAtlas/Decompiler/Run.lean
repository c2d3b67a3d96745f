import JarAtlas.Decompiler.Engine
import JarAtlas.Decompiler.Fetch
import JarAtlas.Decompiler.Slim
import JarAtlas.Workspace.Detection

/-!
Decompiling the server of a version.
-/

namespace JarAtlas

inductive DecompileFailure where
  | noJar
  | noJava
  | noVineflower
  | noJadx
  | failed
  deriving DecidableEq, Repr

def DecompileFailure.key : DecompileFailure → String
  | noJar => "no_jar"
  | noJava => "java_not_found"
  | noVineflower => "no_vineflower"
  | noJadx => "no_jadx"
  | failed => "decompile_failed"

namespace Decompile

def hasLauncher (h : Host) : Bool :=
  h.launcher.any fun l => l.versionCode == 0

/-- The decompiler file for the engine of a name, or why there is none. Only the exact name of the
second engine fetches the second one. -/
def toolFor (root : Path) (name : String) : Action (Except DecompileFailure Path) := do
  if name == "vineflower" then
    match ← Fetch.vineflower root Layout.vineflowerAddress with
    | some p => return .ok p
    | none => return .error .noVineflower
  else
    match ← Fetch.jadx root with
    | some p => return .ok p
    | none => return .error .noJadx

def chosenEngine (root : Path) (given : Json) : Action Json := do
  if given.isGiven then return given else return .str (← Layout.engineName root)

def withTool (root : Path) (version : Json) (name : String) (jar tool : Path) :
    Action (Except DecompileFailure RunReport) := do
  let h ← get
  let version ← Action.ofExcept version.pathText
  let out ← Layout.sources root version
  Action.makeDirs out
  let logs := Layout.logs root
  Action.makeDirs logs
  let log := logs / ("decompile_" ++ name ++ "_" ++ version ++ "_" ++ h.stamp ++ ".log")
  let slim := out.parent / ("HytaleServer_" ++ version ++ "_slim.jar")
  if ← Slim.make jar slim then
    match ← (Engine.ofName name).run slim out tool (some log) with
    | some report => return .ok report
    | none => return .error .failed
  else return .error .failed

/-- Decompiles the server of a version. Version and engine have to be texts when they are needed. -/
def version (root : Path) (version engine : Json) :
    Action (Except DecompileFailure RunReport) := do
  match ← Settings.jarOf? root version.display with
  | none => return .error .noJar
  | some jar =>
    if hasLauncher (← get) then
      let name ← Action.ofExcept (← chosenEngine root engine).asText
      match ← toolFor root name with
      | .ok tool => withTool root version name jar tool
      | .error e => return .error e
    else return .error .noJava

def versions (root : Path) (engine : Json) :
    List Json → Action (Except DecompileFailure (List RunReport))
  | [] => return .ok []
  | v :: vs => do
    match ← version root v engine with
    | .error e => return .error e
    | .ok report => return (← versions root engine vs).map (report :: ·)

end Decompile

end JarAtlas
