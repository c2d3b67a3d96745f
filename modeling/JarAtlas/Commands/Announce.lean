import JarAtlas.Console.Say
import JarAtlas.Messages.Phrase

/-!
What commands say: messages by key, in the language of the project.
-/

namespace JarAtlas

namespace Commands

def tellSuccess (key : String) (values : List (String × Json)) : Action Unit := do
  Console.success (← Messages.say key values)

def tellError (key : String) (values : List (String × Json)) : Action Unit := do
  Console.error (← Messages.say key values)

def tellPhase (key : String) (values : List (String × Json)) : Action Unit := do
  Console.phase (← Messages.say key values)

def tellWarning (key : String) (values : List (String × Json)) : Action Unit := do
  Console.warn (← Messages.say key values)

def refuse (key : String) (values : List (String × Json)) : Action Nat := do
  tellError key values
  return 1

def confirm (key : String) : Action Unit := do
  let question ← Messages.phrase key []
  modify fun h => { h with questions := h.questions ++ [question] }
  if (← get).consent then pure () else throw .abort

def pathValue (p : Path) : Json :=
  .str p.text

end Commands

end JarAtlas
