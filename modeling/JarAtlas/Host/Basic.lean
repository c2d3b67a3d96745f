import JarAtlas.Files.Tree

/-!
The machine that the program runs on, as far as it shows: files, environment, current directory, the
launcher for decompilers, the console, and what the program keeps in memory between commands.
-/

namespace JarAtlas

/-- What starts a decompiler: a program that writes the same files and output each time. -/
structure Launcher where
  files : List (String × Content) := []
  output : Bytes := []
  exitCode : Int := 0
  versionCode : Int := 0

/-- An open database. What was changed since the last commit is kept apart from the file. -/
structure Connection where
  path : Path
  lastRow : Nat := 0
  draft : Option Database := none

inductive Source where
  | builtIn
  | folder (path : Path)

/-- Explanations of concepts: where they come from, and those read so far, by language. -/
structure Knowledge where
  source : Source
  read : List (String × Json) := []

structure Toolbox where
  descriptions : List (String × Json)
  knowledge : Knowledge

inductive Screen where
  | none
  | terminal
  | asciiTerminal
  deriving DecidableEq, Repr

structure Host where
  files : FileTree := {}
  env : List (String × String) := []
  here : Place := []
  clock : Nat := 0
  /-- The time at which all directories count as made. -/
  setUpTime : Nat := 0
  stamp : String := ""
  cores : Nat := 1
  launcher : Option Launcher := none
  output : String := ""
  errors : String := ""
  screen : Screen := .none
  consent : Bool := false
  questions : List Json := []
  offered : Option (List String) := none
  messageSource : Source := .builtIn
  messages : List (String × Json) := []
  toolbox : Option Toolbox := none
  connection : Option Connection := none

/-- An action on the machine. What it changed stays when it fails. -/
abbrev Action := ExceptT Fault (StateM Host)

namespace Host

def envVar? (h : Host) (name : String) : Option String :=
  (h.env.find? fun v => v.1 == name).map (·.2)

def given? (h : Host) (name : String) : Option String :=
  (h.envVar? name).filter (· != "")

/-- What a path leads to. A name with a null character leads nowhere, and a name that is too long
cannot be asked for. -/
def look (h : Host) (p : Path) : Except Fault (Option Node) :=
  if p.hasNull then .ok none
  else
    match h.files.locate h.here p with
    | .ok place => .ok (h.files.get? place)
    | .error .nameTooLong => .error (.file .nameTooLong p.text)
    | .error _ => .ok none

def isFile (h : Host) (p : Path) : Except Fault Bool := do
  match ← h.look p with
  | some (.file ..) => return true
  | _ => return false

def isDir (h : Host) (p : Path) : Except Fault Bool := do
  match ← h.look p with
  | some .directory => return true
  | _ => return false

def isThere (h : Host) (p : Path) : Except Fault Bool := do
  return (← h.look p).isSome

def resolve (h : Host) (p : Path) : Except Fault Path :=
  if p.hasNull then .error .nullInPath else .ok (p.resolve h.here)

def timeOf (h : Host) : Node → Nat
  | .file _ time => time
  | .directory => h.setUpTime

end Host

namespace Action

def failFile (error : FileError) (p : Path) : Action α :=
  throw (.file error p.text)

def ofExcept (r : Except Fault α) : Action α :=
  match r with
  | .ok a => pure a
  | .error e => throw e

def look (p : Path) : Action (Option Node) := do
  ofExcept ((← get).look p)

def isFile (p : Path) : Action Bool := do
  ofExcept ((← get).isFile p)

def isDir (p : Path) : Action Bool := do
  ofExcept ((← get).isDir p)

def isThere (p : Path) : Action Bool := do
  ofExcept ((← get).isThere p)

def resolve (p : Path) : Action Path := do
  ofExcept ((← get).resolve p)

def print (s : String) : Action Unit :=
  modify fun h => { h with output := h.output ++ s }

def printError (s : String) : Action Unit :=
  modify fun h => { h with errors := h.errors ++ s }

def attempt (a : Action α) : Action (Except Fault α) :=
  try (return Except.ok (← a)) catch e => pure (Except.error e)

/-- Does the first action and then, whether it failed or not, the second. -/
def always (a : Action α) (last : Action Unit) : Action α := do
  let r ← attempt a
  last
  ofExcept r

end Action

end JarAtlas
