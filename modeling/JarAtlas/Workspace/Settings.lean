import JarAtlas.Host.Files
import JarAtlas.Json.Argument
import JarAtlas.Version

/-!
The project directory and the settings file in it.
-/

namespace JarAtlas

def settingsName : String := ".prism.json"

/-- The home directory; a name that stands for another user's is not known. -/
def Host.home (h : Host) : Except Fault Path :=
  let set := (h.envVar? "HOME").getD ""
  let cut := String.ofList (set.toList.reverse.dropWhile (· == '/')).reverse
  if Text.startsWith cut "~" then .error .noHome
  else .ok (Path.parse (if cut == "" then "/" else cut))

/-- The nearest directory, from `place` upwards, that holds a settings file. The top does not
count. -/
def settingsAbove? (place : Place) : Action (Option Place) :=
  ((List.range place.length).map fun n => place.take (place.length - n)).findM? fun p =>
    Action.isThere (Path.absolute (p ++ [settingsName]))

/-- The project directory: the one given, the one that the environment names, the nearest one with a
settings file, or else the user's own, or the current one. -/
def projectRoot (given : Option String) (allowHome : Bool) : Action Path := do
  let h ← get
  match given.filter (· != "") with
  | some s => Action.resolve (Path.parse s)
  | none =>
  match h.given? "PRISM_WORKSPACE" with
  | some s => Action.resolve (Path.parse s)
  | none =>
  match ← settingsAbove? h.here with
  | some place => return Path.absolute place
  | none =>
    if allowHome then
      let home := (← Action.ofExcept h.home) / ".prism"
      Action.makeDirs home
      Action.resolve home
    else return Path.absolute h.here

def rootOr (root : Option Path) : Action Path :=
  match root with
  | some p => return p
  | none => projectRoot none true

namespace Settings

def path (root : Path) : Path :=
  root / settingsName

/-- The settings of a project: nothing if the file is missing, unreadable or no JSON. -/
def load (root : Path) : Action Json := do
  match ← Action.readJson (path root) with
  | .ok v => return v
  | .error _ => return .obj []

def save (root : Path) (settings : Json) : Action Unit := do
  let (text, error) := settings.writable
  Action.writeText (path root) text
  match error with
  | none => return ()
  | some .tornText => throw .badOutput
  | some .tooManyDigits => throw .badValue

def field (settings : Json) (name : String) : Except Fault (Option Json) :=
  match settings with
  | .obj fields => .ok (Json.lookup name fields)
  | _ => .error .noMember

def assign (settings : Json) (name : String) (value : Json) : Except Fault Json :=
  match settings with
  | .obj fields => .ok (.obj (Json.assign name value fields))
  | _ => .error (.wrongKind "")

def given? (settings : Json) (name : String) : Except Fault (Option Json) :=
  return (← field settings name).filter Json.isGiven

def path? (settings : Json) (name : String) : Except Fault (Option Path) := do
  match ← given? settings name with
  | none => return none
  -- No file has such a name, nor one with a null.
  | some (.torn _) => return some (Path.parse "\x00")
  | some v => return some (Path.parse (← v.pathText))

def activeVersion? (settings : Json) : Except Fault (Option ServerVersion) := do
  match ← field settings "active_server" with
  | some (.str s) => return ServerVersion.ofName? s
  | _ => return none

def activeVersion (root : Path) : Action ServerVersion := do
  let active ← Action.ofExcept (activeVersion? (← load root))
  return active.getD .release

end Settings

end JarAtlas
