import JarAtlas.Console.Table
import JarAtlas.Host.Basic

/-!
What the program says on the console: messages go to the error channel and tables to the output.
-/

namespace JarAtlas.Console

def report (s : String) : Action Unit := do
  let cs ← Action.ofExcept (plain s)
  Action.printError (joinedLines (wrapText .fold fileWidth cs))

def phase (message : String) : Action Unit :=
  report ("[cyan]" ++ message ++ "[/cyan]")

def success (message : String) : Action Unit :=
  report ("[green]✔ " ++ message ++ "[/green]")

def error (message : String) : Action Unit :=
  report ("[red]✖ " ++ message ++ "[/red]")

def warn (message : String) : Action Unit :=
  report ("[yellow]! " ++ message ++ "[/yellow]")

def during (message : String) (a : Action α) : Action α := do
  let _ ← Action.ofExcept (readMarkup ("[cyan]" ++ message ++ "[/cyan]"))
  a

/-- Does something before a bar is filled. If it fails, the bar leaves an empty line. -/
def beforeProgress (a : Action α) : Action α := do
  match ← Action.attempt a with
  | .ok r => return r
  | .error e =>
    Action.printError "\n"
    throw e

/-- Does something while a bar shows its progress beside a marked-up label, which leaves an empty
line when it ends. A label that cannot be read leaves none. -/
def withProgress (label : String) (a : Action α) : Action α := do
  let _ ← Action.ofExcept (readMarkup ("[progress.description]" ++ label))
  Action.always a (Action.printError "\n")

/-- Does something while a bar shows its progress beside a label and the name of the last file. When
it ends, the name is shown once more, whatever the outcome. -/
def withNamedProgress (label : String) (a : Action (Option String × Except Fault Unit)) :
    Action Unit := do
  let _ ← Action.ofExcept (readMarkup ("[progress.description]" ++ label))
  let (name, outcome) ← beforeProgress a
  name.forM fun name => do
    let _ ← Action.ofExcept (readMarkup (" [cyan]" ++ name ++ "[/cyan]"))
  Action.printError "\n"
  Action.ofExcept outcome

def showObjects (title columns objects : Json) : Action Unit := do
  Action.print (← Action.ofExcept (objectTable title columns objects))

def showTable (title : Json) (columns : List String) (rows : List (List (String × Json))) :
    Action Unit :=
  showObjects title (.arr (columns.map .str)) (.arr (rows.map .obj))

end JarAtlas.Console
