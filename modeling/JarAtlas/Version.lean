import JarAtlas.Json.Basic
import JarAtlas.Text.Blank
import JarAtlas.Text.Letters

/-!
The two lines of server versions.
-/

namespace JarAtlas

inductive ServerVersion where
  | release
  | prerelease
  deriving DecidableEq, Repr, Inhabited

namespace ServerVersion

def name : ServerVersion → String
  | release => "release"
  | prerelease => "prerelease"

def all : List ServerVersion :=
  [release, prerelease]

def ofName? (s : String) : Option ServerVersion :=
  all.find? fun v => v.name == s

/-- The version line that a text means: blanks and case do not matter, and any other text means the
release line. -/
def ofText (s : String) : ServerVersion :=
  (ofName? (Text.lower (Text.strip s))).getD release

/-- The version line that a value means: only texts can mean another one than the release line. -/
def ofValue : Json → ServerVersion
  | .str s => ofText s
  | _ => release

end ServerVersion

end JarAtlas
