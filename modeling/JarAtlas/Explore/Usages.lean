import JarAtlas.Catalogue.Build
import JarAtlas.Explore.Problem

/-!
Where a name is used in decompiled code. A name counts where it stands as a whole word. A dotted
name is looked for as it is and by its last segment.
-/

namespace JarAtlas

def isWordEdge (before after : Option Char) : Bool :=
  before.any Text.isWord != after.any Text.isWord

def wordStandsAt (word : List Char) (before : Option Char) (rest : List Char) : Bool :=
  word.isPrefixOf rest && isWordEdge before rest.head? &&
    isWordEdge (word.getLast?.or before) (rest.drop word.length).head?

/-- The numbers of the lines, counted from zero, in which one of the words stands, once for each
place. At one place the first word that stands there counts, and places do not overlap. -/
def wordLines (words : List (List Char)) (cs : List Char) : List Nat :=
  go none 0 0 [] cs
where
  /-- `before` is the character before, `skip` the number of characters that belong to the last
  place, `line` the current line; `found` is reversed. -/
  go (before : Option Char) (skip line : Nat) (found : List Nat) : List Char → List Nat
    | [] =>
      if skip == 0 && words.any (wordStandsAt · before []) then (line :: found).reverse
      else found.reverse
    | c :: cs =>
      let next := if c == '\n' then line + 1 else line
      if skip != 0 then go (some c) (skip - 1) next found cs
      else
        match words.find? (wordStandsAt · before (c :: cs)) with
        | some word => go (some c) (word.length - 1) next (line :: found) cs
        | none => go (some c) 0 next found cs

/-- A place where a name is used: the file, the line, counted from one, and what it says. -/
structure Usage where
  filePath : String
  line : Nat
  content : String
  deriving DecidableEq, Repr

def wordsOf (target : String) : List (List Char) :=
  match Text.splitLast? '.' target.toList with
  | some (_, last) => [target.toList, last]
  | none => [target.toList]

/-- The words that a value is looked for by: only texts are found, and collections are looked for in
vain unless a dot in them asks for segments. -/
def wordsOfValue : Json → Except Fault (List (List Char))
  | .str target => .ok (wordsOf target)
  | .arr items => if items.contains (.str ".") then .error .noMember else .ok []
  | .obj fields => if (Json.lookup "." fields).isSome then .error .noMember else .ok []
  | _ => .error (.wrongKind "")

def usagesIn (words : List (List Char)) (f : SourceFile) : List Usage :=
  let lines := Text.lines f.text
  ((wordLines words f.text).map fun n => (n, lines[n]?)).takeWhile (·.2.isSome) |>.filterMap
    fun (n, line) => line.map fun cs =>
      ⟨f.path, n + 1, String.ofList (Text.trim cs)⟩

def usages (files : List SourceFile) (words : List (List Char)) : List Usage :=
  files.flatMap (usagesIn words)

def takeUntil (limit : Json) (items : List α) : Except Fault (List α) := do
  let _ ← limit.reachedBy 0
  let more (i : Nat) : Bool :=
    match limit.reachedBy i with
    | .ok reached => !reached
    | .error _ => false
  return (items.zipIdx.takeWhile fun (_, i) => more i).map (·.1)

def findUsages (root : Option Path) (v : ServerVersion) (target limit : Json) :
    Action (Except Problem (List Usage)) := do
  let root ← rootOr root
  let dir ← Layout.decompiled root v.name
  let h ← get
  if !(← Action.isDir dir) then
    return .error
      ⟨"no_source", .str ("Source directory for " ++ v.name ++ " not found."), []⟩
  else
    let words ← Action.ofExcept (wordsOfValue target)
    if (h.filesBelow dir ".java").isEmpty then return .ok []
    else
      match takeUntil limit (usages (SourceFile.below h dir) words) with
      | .ok found => return .ok found
      | .error e => return .error ⟨"search_failed", .str e.message, []⟩

def Usage.toJson (u : Usage) : Json :=
  .obj [("file_path", .str u.filePath), ("line", .ofNat u.line), ("content", .str u.content)]

end JarAtlas
