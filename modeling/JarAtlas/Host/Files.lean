import JarAtlas.Host.Basic
import JarAtlas.Json.Parser

/-!
Reading and writing files.
-/

namespace JarAtlas

namespace Action

def locate (p : Path) : Action Place := do
  if p.hasNull then throw .nullInPath
  let h ← get
  match h.files.locate h.here p with
  | .ok place => return place
  | .error e => failFile e p

def readContent (p : Path) : Action Content := do
  let place ← locate p
  match (← get).files.get? place with
  | some (.file content _) => return content
  | some .directory => failFile .isDirectory p
  | none => failFile .missing p

def readText (p : Path) : Action (List Char) :=
  return (← readContent p).text

def readStrictText (p : Path) : Action (List Char) := do
  match (← readContent p).strictText? with
  | some cs => return cs
  | none => throw .badEncoding

def store (place : Place) (content : Content) : Action Unit :=
  modify fun h =>
    { h with files := h.files.put place (.file content (h.clock + 1)), clock := h.clock + 1 }

def writeContent (p : Path) (content : Content) : Action Unit := do
  let place ← locate p
  let h ← get
  match h.files.get? place with
  | some .directory => failFile .isDirectory p
  | some (.file ..) => store place content
  | none =>
    if h.files.isDir place.dropLast then store place content else failFile .missing p

def writeText (p : Path) (s : String) : Action Unit :=
  writeContent p (.ofText s)

def appendText (p : Path) (s : String) : Action Unit := do
  let old ← if ← isThere p then readContent p else pure (.bytes [])
  writeContent p (.bytes (old.plain ++ (Content.ofText s).plain))

def makeDir (p : Path) : Action Unit := do
  let place ← locate p
  match (← get).files.get? place with
  | some .directory => pure ()
  | some (.file ..) => failFile .alreadyThere p
  | none => modify fun h => { h with files := h.files.put place .directory }

def makeDirs (p : Path) : Action Unit := do
  if p.hasNull then throw .nullInPath
  let steps := (List.range (p.parts.length + 1)).map fun n => Path.mk p.slashes (p.parts.take n)
  let h ← get
  match h.files.locate h.here p with
  | .error .notDirectory => failFile .notDirectory p
  | .error .nameTooLong => failFile .nameTooLong p
  | _ => steps.forM makeDir

def removeFile (p : Path) : Action Unit := do
  let place ← locate p
  match (← get).files.get? place with
  | some (.file ..) => modify fun h => { h with files := h.files.remove place }
  | some .directory => failFile .isDirectory p
  | none => failFile .missing p

/-- What a name as the system takes it leads to. Other than a path, a name that ends in a slash or a
single dot leads only to directories. -/
def status (name : String) : Action Node := do
  let fail (e : FileError) : Action Node := throw (.file e name)
  if name.toList.contains (Char.ofNat 0) then throw .nullInPath
  if name == "" then fail .missing
  else if FileTree.maxPathSize < name.utf8ByteSize then fail .nameTooLong
  else
    let h ← get
    match h.files.locate h.here (Path.parse name) with
    | .error e => fail e
    | .ok place =>
      match h.files.get? place with
      | none => fail .missing
      | some (.file content time) =>
        if Text.endsWith name "/" || Text.endsWith name "/." then fail .notDirectory
        else return .file content time
      | some .directory => return .directory

def moveFile (source target : Path) : Action Unit := do
  if ← isDir target then throw (.move .isDirectory source.text target.text)
  writeContent target (← readContent source)
  if (← locate source) != (← locate target) then removeFile source

def removeTree (p : Path) : Action Unit := do
  let place ← locate p
  match (← get).files.get? place with
  | some .directory => modify fun h => { h with files := h.files.remove place }
  | some (.file ..) => failFile .notDirectory p
  | none => failFile .missing p

def readArchive (p : Path) : Action (List ArchiveEntry) := do
  match (← readContent p).entries? with
  | some entries => return entries
  | none => throw .badArchive

def readEntry (e : ArchiveEntry) : Action Content :=
  if e.isLocked then throw (.encrypted e.name) else return e.content

/-- The value of a JSON file, or why there is none: it is missing, unreadable or malformed. A file
that is not well encoded, a number of too many digits and values that are nested too deeply are
faults that are not passed over. -/
def readJson (p : Path) : Action (Except Fault Json) := do
  if ← isThere p then
    match ← attempt (readStrictText p) with
    | .ok cs =>
      match Json.parse cs with
      | .ok v => return .ok v
      | .error .malformed => return .error .badJson
      | .error .tooManyDigits => throw .badValue
      | .error .tooNested => throw .tooNested
    | .error (.file e path) => return .error (.file e path)
    | .error e => throw e
  else return .error (.file .missing p.text)

end Action

namespace Host

/-- The paths below a directory whose names end in a text, in the order of their texts, each with
what is there. -/
def filesBelow (h : Host) (dir : Path) (ending : String) : List (Path × Node) :=
  match h.files.locate h.here dir with
  | .error _ => []
  | .ok place =>
    (h.files.below place).filterMap fun (found, node) =>
      let rest := found.drop place.length
      if rest.getLast?.any (Text.endsWith · ending) then
        some (⟨dir.slashes, dir.parts ++ rest⟩, node)
      else none

end Host

end JarAtlas
