import JarAtlas.Explore.Usages

/-!
Who calls a method: the usages of its name, by package and class.
-/

namespace JarAtlas

def ownerOf (filePath : String) : String × String :=
  if Text.endsWith filePath ".java" then
    let parts := Text.split (String.ofList (filePath.toList.take (filePath.length - 5))) '/'
    let name := parts.getLast?.getD ""
    if parts.length > 1 then (Text.join "." parts.dropLast, name) else ("unknown", name)
  else ("unknown", "unknown")

structure ClassCalls where
  name : String
  calls : List Usage

structure PackageCalls where
  name : String
  classes : List ClassCalls

def callFlow (found : List Usage) : List PackageCalls :=
  let packages := Catalogue.distinctTexts (found.map fun u => (ownerOf u.filePath).1)
  packages.map fun package =>
    let here := found.filter fun u => (ownerOf u.filePath).1 == package
    let classes := Catalogue.distinctTexts (here.map fun u => (ownerOf u.filePath).2)
    ⟨package, classes.map fun name =>
      ⟨name, here.filter fun u => (ownerOf u.filePath).2 == name⟩⟩

def Usage.toCall (u : Usage) : Json :=
  .obj [("file_path", .str u.filePath), ("line", .ofNat u.line), ("line_content", .str u.content)]

def PackageCalls.toJson (p : PackageCalls) : Json :=
  .obj [
    ("package", .str p.name),
    ("classes", .arr (p.classes.map fun c =>
      .obj [("class_name", .str c.name), ("calls", .arr (c.calls.map Usage.toCall))]))]

def findCalls (root : Option Path) (v : ServerVersion) (target method limit : Json) :
    Action (Except Problem Json) := do
  let name := target.display ++ "." ++ method.display
  match ← findUsages root v (.str name) limit with
  | .error p => return .error p
  | .ok found =>
    return .ok (.obj [
      ("version", .str v.name),
      ("target", .str name),
      ("total_usages", .ofNat found.length),
      ("flow", .arr ((callFlow found).map PackageCalls.toJson))])

end JarAtlas
