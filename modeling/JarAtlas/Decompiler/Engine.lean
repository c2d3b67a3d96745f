import JarAtlas.Console.Say
import JarAtlas.Host.Files
import JarAtlas.Json.Argument

/-!
The two decompilers: how each is started, and what a run leaves behind.
-/

namespace JarAtlas

inductive Engine where
  | jadx
  | vineflower
  deriving DecidableEq, Repr

/-- What a run gave: whether the decompiler complained, how many source files there are, and how
many seconds it took. -/
structure RunReport where
  hadErrors : Bool
  files : Nat
  seconds : Double
  deriving DecidableEq, Repr

namespace RunReport

def toJson (r : RunReport) : Json :=
  .obj [("had_errors", .bool r.hadErrors), ("total_files", .ofNat r.files),
    ("elapsed_time", .double r.seconds)]

end RunReport

namespace Engine

/-- The decompiler that a name means: letter case does not matter, and every unknown name means the
first one. -/
def ofName (name : String) : Engine :=
  if Text.lower name == "vineflower" then vineflower else jadx

def ofValue (v : Json) : Except Fault Engine :=
  return ofName (← v.asText)

def title : Engine → String
  | jadx => "JADX"
  | vineflower => "Vineflower"

def machineOptions : List String :=
  ["-Xmx4G", "-Djava.awt.headless=true", "-XX:+UseParallelGC"]

def command (e : Engine) (cores : Nat) (tool jar out : Path) : List String :=
  "java" :: machineOptions ++ match e with
  | jadx =>
    ["-cp", tool.text, "jadx.cli.JadxCLI", jar.text, "-d", out.text,
      "--threads-count", toString cores, "--show-bad-code", "--no-res",
      "--comments-level", "none"]
  | vineflower =>
    ["-jar", tool.text, "--threads=" ++ toString cores, "--rsy=1", "--dgs=1", jar.text, out.text]

/-- Starts the launcher, which writes its files to a directory, and gives its output and exit
code. -/
def launch (out : Path) : Action (String × Int) := do
  match (← get).launcher with
  | none => throw (.file .missing "java")
  | some l =>
    l.files.forM fun (name, content) => do
      let p := out / name
      Action.makeDirs p.parent
      Action.writeContent p content
    return (String.ofList (Content.bytes l.output).text, l.exitCode)

/-- Runs a decompiler on a JAR file into a directory that is emptied first. With a log the command,
the output and the exit code are written down. Nothing is given if the run failed. -/
def run (e : Engine) (jar out tool : Path) (log : Option Path) : Action (Option RunReport) := do
  if ← Action.isThere out then Action.removeTree out
  Action.makeDirs out
  let h ← get
  let target ← Action.resolve out
  let command := e.command h.cores (← Action.resolve tool) (← Action.resolve jar) target
  let outcome ← Action.attempt do
    log.forM fun p => do
      Action.makeDirs p.parent
      Action.writeText p ("Command: " ++ Text.join " " command ++ "\n\n")
    Console.withProgress "" do
      let (output, code) ← launch target
      log.forM fun p =>
        Action.appendText p (output ++ "\n--- exit code: " ++ toString code ++ " ---\n")
      return code
  match outcome with
  | .ok code =>
    let files := ((← get).filesBelow out ".java").length
    return some ⟨code != 0, files, .zero false⟩
  | .error fault =>
    Action.printError (e.title ++ " execution failed: " ++ fault.message ++ "\n")
    return none

end Engine

end JarAtlas
