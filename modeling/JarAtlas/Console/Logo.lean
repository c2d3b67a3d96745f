import JarAtlas.Console.Lines
import JarAtlas.Host.Basic

/-!
The program's logo with its version.
-/

namespace JarAtlas.Console

def programVersion : String := "1.1.1"

def versionLine : String := "VERSION " ++ programVersion ++ " | ORBISFACTORY"

def logoLines : List String := [
  " ██████╗ ██████╗ ██████╗ ██╗███████╗██████╗ ██████╗ ██╗███████╗███╗   ███╗",
  "██╔═══██╗██╔══██╗██╔══██╗██║██╔════╝██╔══██╗██╔══██╗██║██╔════╝████╗ ████║",
  "██║   ██║██████╔╝██████╔╝██║███████╗██████╔╝██████╔╝██║███████╗██╔████╔██║",
  "██║   ██║██╔══██╗██╔══██╗██║╚════██║██╔═══╝ ██╔══██╗██║╚════██║██║╚██╔╝██║",
  "╚██████╔╝██║  ██║██████╔╝██║███████║██║     ██║  ██║██║███████║██║ ╚═╝ ██║",
  " ╚═════╝ ╚═╝  ╚═╝╚═════╝ ╚═╝╚══════╝╚═╝     ╚═╝  ╚═╝╚═╝╚══════╝╚═╝     ╚═╝"]

def logo : String :=
  let size := logoLines.foldl (fun n line => max n line.length) 0
  "\n" ++ Text.join "\n" logoLines ++ "\n\n" ++ String.ofList (centred size versionLine.toList)

def showLogo : Action Unit := do
  match (← get).screen with
  | .none => pure ()
  | .terminal => Action.printError (logo ++ "\n")
  | .asciiTerminal => Action.printError ("\n*** " ++ versionLine ++ " ***\n\n")

end JarAtlas.Console
