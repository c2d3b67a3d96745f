import JarAtlas.Commands.Announce
import JarAtlas.Explore.Details
import JarAtlas.Workspace.Cleanup

/-!
The commands that clean a workspace, list its versions and choose the active one.
-/

namespace JarAtlas

namespace Commands

def doing (key doneKey : String) (a : Action Unit) : Action Nat := do
  Console.during (← Messages.say key []) a
  tellSuccess doneKey []
  return 0

def clean (root : Path) (target : String) : Action Nat := do
  let target := Text.lower (Text.strip target)
  if target == "db" then
    doing "cli.context.clean.cleaning_db" "cli.context.clean.db_done" (Cleanup.databases root)
  else if target == "build" || target == "b" then
    doing "cli.context.clean.cleaning_build" "cli.context.clean.build_done" (Cleanup.code root)
  else if target == "all" then
    confirm "cli.context.clean.confirm_all"
    doing "cli.context.clean.cleaning_all" "cli.context.clean.all_done" do
      Cleanup.databases root
      Cleanup.code root
  else refuse "cli.context.clean.usage" []

def reset (root : Path) : Action Nat := do
  confirm "cli.context.reset.confirm"
  doing "cli.context.reset.reseting" "cli.context.reset.done" (Cleanup.everything root)

def mark (inUse : Bool) : Json :=
  .str (if inUse then "✔" else "")

def list (root : Path) : Action Nat := do
  let loading ← Messages.say "cli.context.list.loading" []
  let active ← Console.during loading (activeValue root)
  let indexed ← indexedVersions root
  if indexed.isEmpty then tellPhase "cli.context.list.none" []
  else
    let title ← Messages.phrase "cli.context.list.title" []
    Console.showTable title ["version", "active"] (indexed.map fun v =>
      [("version", .str v.name), ("active", mark (active == .str v.name))])
  return 0

/-- Makes a version the active one, also if it has no catalogue yet. -/
def use (root : Path) (name : String) : Action Nat := do
  match ServerVersion.ofName? (Text.lower (Text.strip name)) with
  | none => refuse "cli.context.use.invalid" []
  | some v =>
    let settings ← Settings.load root
    Settings.save root
      (← Action.ofExcept (Settings.assign settings "active_server" (.str v.name)))
    if !(← Action.isFile (← Layout.catalogue root v.name)) then
      tellError "cli.context.use.not_indexed" [("version", .str v.name)]
    tellSuccess "cli.context.use.success" [("version", .str v.name)]
    return 0

end Commands

end JarAtlas
