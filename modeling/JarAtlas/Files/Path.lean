import JarAtlas.Text.Find

/-!
Path names. A name keeps its parts; empty parts and single dots vanish when a name is read, double
dots stay until the name is resolved.
-/

namespace JarAtlas

/-- A path name: whether and how it is anchored, and its parts. -/
structure Path where
  /-- The number of slashes in front: none for a relative name, one, or exactly two. -/
  slashes : Nat
  parts : List String
  deriving DecidableEq, Repr, Inhabited

namespace Path

def partsOf (s : String) : List String :=
  (Text.split s '/').filter fun part => part != "" && part != "."

def parse (s : String) : Path :=
  let n := (s.toList.takeWhile (· == '/')).length
  ⟨if n == 0 then 0 else if n == 2 then 2 else 1, partsOf s⟩

def absolute (parts : List String) : Path :=
  ⟨1, parts⟩

def isAbsolute (p : Path) : Bool :=
  p.slashes != 0

def text (p : Path) : String :=
  if p.slashes == 0 && p.parts.isEmpty then "."
  else String.ofList (List.replicate p.slashes '/') ++ Text.join "/" p.parts

def join (p : Path) (s : String) : Path :=
  let q := parse s
  if q.isAbsolute then q else ⟨p.slashes, p.parts ++ q.parts⟩

instance : HDiv Path String Path := ⟨join⟩

def parent (p : Path) : Path :=
  ⟨p.slashes, p.parts.dropLast⟩

def name (p : Path) : String :=
  p.parts.getLast?.getD ""

/-- A file name cut before its extension: the last dot and what follows it, if that dot is neither
the first nor the last character. -/
def cutName (s : String) : String × String :=
  match Text.splitLast? '.' s.toList with
  | some (stem, ending) =>
    if stem.isEmpty || ending.isEmpty then (s, "")
    else (String.ofList stem, String.ofList ('.' :: ending))
  | none => (s, "")

def suffix (p : Path) : String :=
  (cutName p.name).2

def stem (p : Path) : String :=
  (cutName p.name).1

def withSuffix (p : Path) (ending : String) : Path :=
  ⟨p.slashes, p.parts.dropLast ++ [p.stem ++ ending]⟩

/-- Removes double dots, each with the part before it; above the top there is only the top. -/
def collapse (parts : List String) : List String :=
  (parts.foldl (fun done part => if part == ".." then done.drop 1 else part :: done) []).reverse

def resolve (here : List String) (p : Path) : Path :=
  absolute (collapse (if p.isAbsolute then p.parts else here ++ p.parts))

def hasNull (p : Path) : Bool :=
  p.parts.any fun part => part.toList.contains (Char.ofNat 0)

def isWithin (p dir : Path) : Bool :=
  p.slashes == dir.slashes && dir.parts.isPrefixOf p.parts

end Path

end JarAtlas
