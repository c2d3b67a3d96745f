import JarAtlas.Version

/-!
Problems that are part of an answer.
-/

namespace JarAtlas

structure Problem where
  kind : String
  message : Json
  more : List (String × Json) := []

namespace Problem

def toJson (p : Problem) : Json :=
  .obj ([("error", .str p.kind), ("message", p.message)] ++ p.more)

def noDatabase (v : ServerVersion) : Problem :=
  ⟨"no_db", .str ("Database for version " ++ v.name ++ " does not exist."), []⟩

end Problem

end JarAtlas
