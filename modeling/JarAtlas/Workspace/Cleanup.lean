import JarAtlas.Workspace.Layout

/-!
Removing what the program made.
-/

namespace JarAtlas

namespace Cleanup

def dropFile (p : Path) : Action Unit := do
  if ← Action.isFile p then Action.removeFile p

def dropDir (p : Path) : Action Unit := do
  if ← Action.isDir p then Action.removeTree p

def databases (root : Path) : Action Unit := do
  if ← Action.isDir (← Layout.databases root) then
    ServerVersion.all.forM fun v => do
      dropFile (← Layout.catalogue root v.name)
      dropFile (← Layout.assets root v.name)

def code (root : Path) : Action Unit :=
  ServerVersion.all.forM fun v => do
    dropDir (← Layout.sources root v.name)
    dropDir (← Layout.decompiled root v.name)

def everything (root : Path) : Action Unit := do
  databases root
  code root
  dropFile (Settings.path root)

end Cleanup

end JarAtlas
