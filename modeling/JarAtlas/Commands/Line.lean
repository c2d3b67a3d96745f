import JarAtlas.Commands.Build
import JarAtlas.Commands.Configure
import JarAtlas.Commands.Help
import JarAtlas.Commands.Query
import JarAtlas.Commands.Serve

/-!
The commands as values, how they are read from the words of a command line, and how they are run.
-/

namespace JarAtlas

inductive Command where
  | help
  | detect
  | build (request : Commands.BuildRequest)
  | clean (target : String)
  | reset
  | decompile (version : Option String) (engine : Json)
  | index (version : Option String)
  | list
  | use (version : String)
  | indexAssets (version : Option String)
  | listLanguages
  | setLanguage (code : String)
  | configure (key value : String)
  | query (request : Commands.QueryRequest)
  | serve (service : Commands.Service)

namespace Command

/-- Runs a command in a project and gives its exit code. A service is run by `offer`, which is given
the names of the tools. -/
def run (root : Path) (offer : Commands.Service → List String → Action Unit) :
    Command → Action Nat
  | help => do
    Commands.showHelp
    return 0
  | detect => Commands.detect root
  | build request => Commands.build root request
  | clean target => Commands.clean root target
  | reset => Commands.reset root
  | decompile version engine => Commands.decompile root version engine
  | index version => Commands.index root version
  | list => Commands.list root
  | use version => Commands.use root version
  | indexAssets version => Commands.indexAssets root version
  | listLanguages => Commands.listLanguages root
  | setLanguage code => Commands.setLanguage root code
  | configure key value => Commands.configure root key value
  | query request => Commands.query root request
  | serve service => Commands.serve service (offer service)

structure Words where
  values : List (String × String) := []
  flags : List String := []
  others : List String := []

namespace Words

/-- Sorts words; `valued` and `plain` are the options that there are. An option without its value
and an unknown option are not understood. -/
def sort? (valued plain : List String) : List String → Option Words
  | [] => some {}
  | name :: value :: rest =>
    if valued.contains name then do
      let words ← sort? valued plain rest
      return { words with values := (name, value) :: words.values }
    else if plain.contains name then do
      let words ← sort? valued plain (value :: rest)
      return { words with flags := name :: words.flags }
    else if Text.startsWith name "-" then none
    else do
      let words ← sort? valued plain (value :: rest)
      return { words with others := name :: words.others }
  | [word] =>
    if plain.contains word then some { flags := [word] }
    else if Text.startsWith word "-" then none
    else some { others := [word] }

def value? (w : Words) (names : List String) : Option String :=
  (w.values.find? fun v => names.contains v.1).map (·.2)

def has (w : Words) (names : List String) : Bool :=
  w.flags.any names.contains

def atMostOne? (w : Words) : Option (Option String) :=
  match w.others with
  | [] => some none
  | [word] => some (some word)
  | _ => none

end Words

def engineOption : List String := ["--engine", "-e"]

def parseContext? : List String → Option Command
  | ["detect"] => some detect
  | ["reset"] => some reset
  | ["list"] => some list
  | ["clean", target] => some (clean target)
  | ["use", version] => some (use version)
  | "init" :: rest => do
    let w ← Words.sort? engineOption ["--all", "-a", "--assets"] rest
    return build {
      version := ← w.atMostOne?
      allVersions := w.has ["--all", "-a"]
      withAssets := w.has ["--assets"]
      engine := .ofText? (w.value? engineOption) }
  | "decompile" :: rest => do
    let w ← Words.sort? engineOption [] rest
    return decompile (← w.atMostOne?) (.ofText? (w.value? engineOption))
  | ["db"] => some (index none)
  | ["db", version] => some (index (some version))
  | ["assets"] => some (indexAssets none)
  | ["assets", version] => some (indexAssets (some version))
  | _ => none

def parseQuery? (args : List String) : Option Command := do
  let versionOption := ["--version", "-v"]
  let limitOption := ["--limit", "-n"]
  let w ← Words.sort? (versionOption ++ limitOption) ["--json", "-j", "--assets", "-a"] args
  let default : Commands.QueryRequest := { term := "" }
  match w.others with
  | [term] =>
    let version ← match w.value? versionOption with
      | some v => ServerVersion.ofName? v
      | none => some default.version
    let limit ← match w.value? limitOption with
      | some n => (readInt? n).map .int
      | none => some default.limit
    return query {
      term, version, limit
      asJson := w.has ["--json", "-j"]
      assets := w.has ["--assets", "-a"] }
  | _ => none

def parseServe? (args : List String) : Option Command := do
  let portOption := ["--port", "-p"]
  let w ← Words.sort? ("--host" :: portOption) ["--http", "-H"] args
  let default : Commands.Service := {}
  let portNumber ← match w.value? portOption with
    | some n => (readInt? n).map .int
    | none => some default.portNumber
  return serve {
    host := ((w.value? ["--host"]).map .str).getD default.host
    portNumber
    overNetwork := w.has ["--http", "-H"] }

def parse? : List String → Option Command
  | [] => some help
  | ["-h"] => some help
  | ["--help"] => some help
  | "context" :: rest => parseContext? rest
  | "ctx" :: rest => parseContext? rest
  | "query" :: rest => parseQuery? rest
  | "mcp" :: rest => parseServe? rest
  | ["lang", "list"] => some listLanguages
  | ["lang", "set", code] => if Commands.isLanguage code then some (setLanguage code) else none
  | ["config", "set", key, value] => some (configure key value)
  | _ => none

end Command

end JarAtlas
