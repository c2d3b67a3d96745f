import JarAtlas.Text.Blank
import JarAtlas.Text.Letters

/-!
Recognisers at the front of a text, and the search for all that a recogniser finds in a text: from
left to right, each match starting after the one before.
-/

namespace JarAtlas.Java

structure Match (α : Type) where
  start : Nat
  stop : Nat
  covered : List Char
  value : α
  deriving Repr

/-- What a recogniser reads at the front of a text, and the rest. -/
abbrev Recogniser (α : Type) := List Char → Option (α × List Char)

def after? (word : List Char) (cs : List Char) : Option (List Char) :=
  if word.isPrefixOf cs then some (cs.drop word.length) else none

def afterBlanks? (cs : List Char) : Option (List Char) :=
  match cs with
  | c :: rest => if Text.isBlank c then some (rest.dropWhile Text.isBlank) else none
  | [] => none

def run? (p : Char → Bool) : Recogniser (List Char) := fun cs =>
  match cs.span p with
  | ([], _) => none
  | found => some found

def scan (recognise : Recogniser α) (cs : List Char) : List (Match α) :=
  go 0 0 [] cs
where
  /-- `skip` characters of a match are still to be passed; `found` holds the matches so far,
  reversed. -/
  go (position skip : Nat) (found : List (Match α)) : List Char → List (Match α)
    | [] => found.reverse
    | c :: cs =>
      match skip with
      | skip + 1 => go (position + 1) skip found cs
      | 0 =>
        match recognise (c :: cs) with
        | none => go (position + 1) 0 found cs
        | some (value, rest) =>
          let size := cs.length + 1 - rest.length
          let m : Match α := ⟨position, position + size, (c :: cs).take size, value⟩
          go (position + 1) (size - 1) (m :: found) cs

def scanFirst? (recognise : Recogniser α) : List Char → Option α
  | [] => none
  | c :: cs =>
    match recognise (c :: cs) with
    | some (value, _) => some value
    | none => scanFirst? recognise cs

end JarAtlas.Java
