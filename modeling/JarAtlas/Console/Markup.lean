import JarAtlas.Console.Emoji
import JarAtlas.Console.Literal
import JarAtlas.Console.Style

/-!
Text with mark-up tags, as it shows on a console without colours. A tag stands in square brackets
and starts with a small letter or one of `# / @`. A backslash takes away the meaning of a bracket. A
tag that starts with a slash closes the last tag of the same style, or the last tag at all if it
names none.
-/

namespace JarAtlas.Console

/-- A piece of marked-up text. A tag has the place of its bracket. -/
inductive Piece where
  | text (cs : List Char)
  | tag (place : Nat) (cs : List Char)
  deriving DecidableEq, Repr

def startsTag (c : Char) : Bool :=
  ('a' ≤ c && c ≤ 'z') || c == '#' || c == '/' || c == '@'

def readTag? : List Char → Option (List Char)
  | c :: cs =>
    if startsTag c then
      match cs.span fun d => d != ']' && d != '[' with
      | (body, ']' :: _) => some (c :: body)
      | _ => none
    else none
  | [] => none

/-- The pieces of a tag that follows `slashes` backslashes: every two stand for one, and a single
one that is left makes the tag plain. -/
def tagPieces (slashes place : Nat) (tag : List Char) : List Piece :=
  let shown := List.replicate (slashes / 2) '\\'
  if slashes % 2 == 1 then [.text shown, .text ('[' :: tag ++ [']'])]
  else [.text shown, .tag place tag]

def pieces (cs : List Char) : List Piece :=
  go 0 0 0 [] [] cs
where
  /-- `place` is the place of the next character, `skip` the number of characters that belong to the
  last tag, `slashes` the number of backslashes just before, `plain` the text since the last tag
  without them; `plain` and `done` are reversed. -/
  go (place skip slashes : Nat) (plain : List Char) (done : List Piece) :
      List Char → List Piece
    | [] => (.text (List.replicate slashes '\\' ++ plain).reverse :: done).reverse
    | c :: cs =>
      if skip != 0 then go (place + 1) (skip - 1) 0 plain done cs
      else if c == '\\' then go (place + 1) 0 (slashes + 1) plain done cs
      else
        match if c == '[' then readTag? cs else none with
        | some tag =>
          go (place + 1) (tag.length + 1) 0 []
            ((tagPieces slashes place tag).reverse ++ .text plain.reverse :: done) cs
        | none => go (place + 1) 0 0 (c :: (List.replicate slashes '\\' ++ plain)) done cs

def unescape : List Char → List Char
  | '\\' :: '[' :: cs => '[' :: unescape cs
  | c :: cs => c :: unescape cs
  | [] => []

/-- Characters that are not written: bell, backspace, vertical tab, form feed, carriage return. -/
def isSilent (c : Char) : Bool :=
  [7, 8, 11, 12, 13].contains c.toNat

def shownText (cs : List Char) : List Char :=
  (Emoji.replace (unescape cs)).filter fun c => !isSilent c

structure Tag where
  name : List Char
  parameters : Option (List Char)
  deriving DecidableEq, Repr

namespace Tag

def ofText (cs : List Char) : Tag :=
  match Text.splitFirst? '=' cs with
  | some (name, parameters) => ⟨name, some parameters⟩
  | none => ⟨cs, none⟩

def written (t : Tag) : List Char :=
  match t.parameters with
  | some parameters => '[' :: t.name ++ '=' :: parameters ++ [']']
  | none => '[' :: t.name ++ [']']

def style (t : Tag) : List Char :=
  match t.parameters with
  | some parameters => t.name ++ ' ' :: parameters
  | none => t.name

def isEvent (t : Tag) : Bool :=
  t.name.head? == some '@'

/-- The values that a handler is given: what stands in round brackets after its name, or nothing, or
the whole text if it does not start with a name. -/
def handlerValues (parameters : List Char) : List Char :=
  let cs := Text.trim parameters
  let rest := cs.dropWhile fun c => Text.isWord c || c == '.'
  if rest.isEmpty then ['(', ')']
  else if rest.head? == some '(' && rest.getLast? == some ')' && !rest.contains '\n' then rest
  else cs

def hasGoodValues (t : Tag) : Bool :=
  match t.parameters with
  | none => true
  | some parameters => parameters.isEmpty || isLiteral (handlerValues parameters)

end Tag

structure Marked where
  text : List Char
  styles : List (List Char)
  deriving DecidableEq, Repr

/-- What is known while marked-up text is read: the open tags, the last one first, the styles of the
closed ones, and the text so far; styles and text are reversed. -/
structure MarkState where
  opened : List Tag := []
  styles : List (List Char) := []
  text : List Char := []

namespace MarkState

def close (s : MarkState) (t : Tag) : Except Fault MarkState :=
  let rest := { s with opened := s.opened.erase t }
  if t.isEvent then
    if t.hasGoodValues then .ok rest
    else
      let shown := String.ofList (Json.displayInner (.str (String.ofList (t.parameters.getD []))))
      .error (.badMarkup ("error parsing " ++ shown))
  else .ok { rest with styles := t.style :: s.styles }

def tag (s : MarkState) (place : Nat) (t : Tag) : Except Fault MarkState := do
  match t.name with
  | '/' :: name =>
    match Text.trim name with
    | [] =>
      match s.opened with
      | last :: _ => s.close last
      | [] =>
        .error (.badMarkup ("closing tag '[/]' at position " ++ toString place ++
          " has nothing to close"))
    | name =>
      let name ← Style.nameOf name
      match s.opened.find? fun o => o.name == name with
      | some last => s.close last
      | none =>
        .error (.badMarkup ("closing tag '" ++ String.ofList t.written ++ "' at position " ++
          toString place ++ " doesn't match any open tag"))
  | name =>
    let opened : Tag := ⟨← Style.nameOf name, t.parameters⟩
    return { s with opened := opened :: s.opened }

def step (s : MarkState) : Piece → Except Fault MarkState
  | .text cs => .ok { s with text := (shownText cs).reverseAux s.text }
  | .tag place cs => s.tag place (Tag.ofText cs)

end MarkState

def readMarkup (s : String) : Except Fault Marked := do
  let last ← (pieces s.toList).foldlM MarkState.step ({} : MarkState)
  return ⟨last.text.reverse, last.styles ++ last.opened.map Tag.style⟩

def Marked.shown (m : Marked) : Except Fault (List Char) :=
  if m.styles.all Style.canShow then .ok m.text else .error .badValue

def plain (s : String) : Except Fault (List Char) := do
  (← readMarkup s).shown

end JarAtlas.Console
