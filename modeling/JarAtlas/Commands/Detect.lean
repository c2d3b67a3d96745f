import JarAtlas.Commands.Announce
import JarAtlas.Workspace.Detection

/-!
The command that finds the server and writes it into the settings.
-/

namespace JarAtlas

namespace Commands

def makeWorkspace (root : Path) : Action Unit := do
  Action.makeDirs root
  Action.makeDirs (← Layout.workspace root)
  Action.makeDirs (← Layout.sources root "release")
  Action.makeDirs (← Layout.databases root)
  Action.makeDirs (Layout.logs root)

def siblingKey (jar : Path) : String :=
  if Text.contains (Settings.slashed jar) "pre-release" then "jar_path_release"
  else "jar_path_prerelease"

def assignSibling (settings : Json) (jar : Path) (sibling : Option Path) : Except Fault Json :=
  match sibling with
  | some p => Settings.assign settings (siblingKey jar) (.str p.text)
  | none => .ok settings

def namesNoJar : Action Bool := do
  match (← get).given? "HYTALE_JAR_PATH" with
  | some s => return !(← Detection.isJar (← Action.resolve (Path.parse s)))
  | none => return false

def saveServer (root jar : Path) : Action Nat := do
  let settings ← Settings.load root
  let target ← Action.resolve jar
  let settings ← Action.ofExcept (Settings.assign settings "jar_path" (.str target.text))
  let workspace ← Action.resolve (← Layout.workspace root)
  let settings ← Action.ofExcept (Settings.assign settings "output_dir" (.str workspace.text))
  let sibling ← Detection.sibling? jar
  let settings ← Action.ofExcept (assignSibling settings jar sibling)
  Settings.save root settings
  tellSuccess "cli.init.success_jar" [("path", pathValue jar)]
  sibling.forM fun p => tellSuccess "cli.init.sibling_saved" [("path", pathValue p)]
  tellSuccess "cli.init.success_config" [("path", pathValue (Settings.path root))]
  return 0

def detect (root : Path) : Action Nat := do
  makeWorkspace root
  if ← namesNoJar then refuse "cli.init.env_jar_invalid" []
  else
    match ← Detection.server? root with
    | some jar => saveServer root jar
    | none =>
      tellError "cli.init.jar_not_found" []
      tellError "cli.init.hint_env" []
      refuse "cli.init.hint_windows" []

end Commands

end JarAtlas
