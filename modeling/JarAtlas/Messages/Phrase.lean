import JarAtlas.Messages.BuiltIn
import JarAtlas.Workspace.Settings

/-!
The language of the project, and the program's messages in it, by key. A language file is read
once. A message that a language lacks comes from the default language, and one that this lacks too
is the key itself.
-/

namespace JarAtlas

namespace Messages

def defaultLocale : String := "es"

/-- The short code of a language: what stands before the first underscore or hyphen, without blanks
around it and in lower case. -/
def normalizeLocale (locale : String) : String :=
  let head := locale.toList.takeWhile fun c => c != '_' && c != '-'
  let code := Text.lower (Text.strip (String.ofList head))
  if code == "" then defaultLocale else code

def environmentLocale (h : Host) : String :=
  match (h.given? "PRISM_LANG").or (h.given? "LANG") with
  | some s => normalizeLocale s
  | none => defaultLocale

/-- The language of a project: the one in its settings, or else that of the environment. -/
def locale (root : Path) : Action String := do
  match ← Action.ofExcept (Settings.given? (← Settings.load root) "lang") with
  | none => return environmentLocale (← get)
  | some (.torn s) => return normalizeLocale s
  | some v => return normalizeLocale (← Action.ofExcept v.asText)

def fileName (locale : String) : String :=
  locale ++ ".json"

def readLanguage (p : Path) : Action Json := do
  match ← Action.readJson p with
  | .ok v => return v
  | .error _ => return .obj []

def catalogue (locale : String) : Action Json := do
  let h ← get
  match h.messages.find? fun m => m.1 == locale with
  | some (_, messages) => return messages
  | none =>
    let name := Path.parse (fileName locale)
    let messages ← match h.messageSource with
      | .builtIn =>
        if name.isAbsolute then readLanguage name
        else pure ((← Action.ofExcept (BuiltIn.lookUp name)).getD (.obj []))
      | .folder dir => readLanguage (dir / fileName locale)
    modify fun h => { h with messages := h.messages ++ [(locale, messages)] }
    return messages

/-- A message among those of a language. Only texts are keys, and a collection cannot be looked up
at all. -/
def message? (messages key : Json) : Except Fault (Option Json) :=
  match messages, key with
  | .obj fields, .str key => .ok (Json.lookup key fields)
  | .obj _, .arr _ => .error (.wrongKind "")
  | .obj _, .obj _ => .error (.wrongKind "")
  | .obj _, _ => .ok none
  | _, _ => .error .noMember

/-- The text with each name in braces replaced by its value, one name after another. -/
def fill (text : String) (values : List (String × Json)) : String :=
  values.foldl (fun text (name, value) =>
    Text.replace text ("\x7b" ++ name ++ "\x7d") value.display) text

def fillMessage (message : Json) (values : List (String × Json)) : Except Fault Json :=
  match message with
  | .str s => .ok (.str (fill s values))
  | .torn s => .ok (.torn (fill s values))
  | v => if values.isEmpty then .ok v else .error .noMember

/-- The message of a key in the language of the project, with its names in braces. -/
def messageOf (key : Json) : Action Json := do
  let root ← projectRoot none true
  let locale ← locale root
  let messages ← catalogue locale
  let others ← if locale != defaultLocale then catalogue defaultLocale else pure .null
  let own ← Action.ofExcept (message? messages key)
  let found ← if !own.any Json.isGiven && others.isGiven
    then Action.ofExcept (message? others key) else pure own
  match found with
  | none => return key
  | some .null => return key
  | some v => return v

/-- The message of a key with values for its names. No name can be `key`. -/
def phraseFor (key : Json) (values : List (String × Json)) : Action Json := do
  if values.any fun v => v.1 == "key" then throw (.wrongKind "")
  Action.ofExcept (fillMessage (← messageOf key) values)

def phrase (key : String) (values : List (String × Json)) : Action Json :=
  phraseFor (.str key) values

def say (key : String) (values : List (String × Json)) : Action String :=
  return (← phrase key values).display

/-- The languages that there are, with their names, in the order of their file names. -/
def available : Action (List (String × Json)) := do
  let h ← get
  let names : List String := match h.messageSource with
    | .builtIn => BuiltIn.messages.map fun b => fileName b.1
    | .folder dir =>
      match h.files.locate h.here dir with
      | .ok place => (h.files.names place).filter (Text.endsWith · ".json")
      | .error _ => []
  names.mapM fun name => do
    let code := Text.lower (Path.cutName name).1
    let messages ← catalogue code
    let called ← Action.ofExcept (message? messages (.str "_name"))
    return (code, called.getD (.str code))

def isAvailable (locale : String) : Action Bool := do
  let name := fileName (normalizeLocale locale)
  match (← get).messageSource with
  | .builtIn =>
    let p := Path.parse name
    if p.isAbsolute then Action.isThere p
    else return (← Action.ofExcept (BuiltIn.lookUp p)).isSome
  | .folder dir => Action.isThere (dir / name)

end Messages

end JarAtlas
