import JarAtlas.Commands.Context
import JarAtlas.Commands.Detect

/-!
The commands that change settings: where the game and the decompiler are, which decompiler is used,
and the language.
-/

namespace JarAtlas

namespace Commands

def setInstallation (root install : Path) (settings : Json) (value : String) : Action Nat := do
  let save (settings : Except Fault Json) : Action Unit := do
    Settings.save root (← Action.ofExcept settings)
    tellSuccess "cli.config.hytale_root_detected" []
  match ← Detection.serversIn install with
  | (none, none) => refuse "cli.config.jar_set_invalid" [("path", .str value)]
  | (some release, none) =>
    save (Settings.assign settings "jar_path" (.str release.text))
    tellSuccess "cli.init.success_jar" [("path", pathValue release)]
    return 0
  | (none, some prerelease) =>
    save (Settings.assign settings "jar_path" (.str prerelease.text))
    tellSuccess "cli.init.sibling_saved" [("path", pathValue prerelease)]
    return 0
  | (some release, some prerelease) =>
    save do
      let s ← Settings.assign settings "jar_path" (.str release.text)
      Settings.assign s "jar_path_prerelease" (.str prerelease.text)
    tellSuccess "cli.init.success_jar" [("path", pathValue release)]
    tellSuccess "cli.init.sibling_saved" [("path", pathValue prerelease)]
    return 0

def setJar (root jar : Path) (settings : Json) : Action Nat := do
  let settings ← Action.ofExcept (Settings.assign settings "jar_path" (.str jar.text))
  let sibling ← Detection.sibling? jar
  let settings ← Action.ofExcept (assignSibling settings jar sibling)
  Settings.save root settings
  tellSuccess "cli.config.jar_set_success" [("path", pathValue jar)]
  sibling.forM fun p => tellSuccess "cli.init.sibling_saved" [("path", pathValue p)]
  return 0

def setGame (root : Path) (value : String) : Action Nat := do
  let p ← Action.resolve (Path.parse value)
  let settings ← Settings.load root
  if (← Action.isDir p) && (← Detection.isInstallation p) then
    setInstallation root p settings value
  else if ← Detection.isJar p then setJar root p settings
  else refuse "cli.config.jar_set_invalid" [("path", .str value)]

def setJadx (root : Path) (value : String) : Action Nat := do
  let p ← Action.resolve (Path.parse value)
  if ← Action.isFile p then
    let settings ← Settings.load root
    Settings.save root (← Action.ofExcept (Settings.assign settings "jadx_path" (.str p.text)))
    tellSuccess "cli.config.jadx_path_set_success" [("path", pathValue p)]
    return 0
  else refuse "cli.config.jadx_path_invalid" [("path", .str value)]

def setDecompiler (root : Path) (value : String) : Action Nat := do
  let name := Text.strip (Text.lower value)
  if name == "jadx" || name == "vineflower" then
    let settings ← Settings.load root
    Settings.save root (← Action.ofExcept (Settings.assign settings "decompiler" (.str name)))
    tellSuccess "cli.config.decompiler_set_success" [("engine", .str name)]
    return 0
  else refuse "cli.config.decompiler_invalid" [("value", .str value)]

def configure (root : Path) (key value : String) : Action Nat :=
  match key with
  | "game_path" => setGame root value
  | "jadx_path" => setJadx root value
  | "decompiler" => setDecompiler root value
  | _ => refuse "cli.config.unknown_key" [("key", .str key)]

/-- The languages that can be chosen, with their names: those that the program brings along. -/
def languages : List (String × Json) :=
  BuiltIn.messages.map fun (code, messages) => (code, (messages.get? "_name").getD (.str code))

def isLanguage (code : String) : Bool :=
  languages.any fun l => l.1 == code

def listLanguages (root : Path) : Action Nat := do
  let current ← Messages.locale root
  let title ← Messages.phrase "lang.list.header" []
  Console.showTable title ["code", "name", "current"] (languages.map fun (code, name) =>
    [("code", .str code), ("name", name), ("current", mark (code == current))])
  return 0

def setLanguage (root : Path) (code : String) : Action Nat := do
  if ← Messages.isAvailable code then
    let settings ← Settings.load root
    Settings.save root (← Action.ofExcept (Settings.assign settings "lang" (.str code)))
    tellSuccess "lang.set.success" [("lang", .str code)]
    return 0
  else refuse "lang.set.invalid" [("lang", .str code)]

end Commands

end JarAtlas
