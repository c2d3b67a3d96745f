import JarAtlas.Java.Declaration
import JarAtlas.Java.Scan

/-!
The package clause and the headers of public types. A header is
`public [abstract|final] KIND Name [extends …] [implements …] {`, where the clauses hold names, type
arguments, dots, commas and blanks.
-/

namespace JarAtlas.Java

def packageClause : Recogniser (List Char) := fun cs => do
  let rest ← after? "package".toList cs
  let rest ← afterBlanks? rest
  let (name, rest) ← run? (fun c => Text.isWord c || c == '.') rest
  let rest ← after? [';'] rest
  return (name, rest)

def packageOf? (cs : List Char) : Option (List Char) :=
  scanFirst? packageClause cs

structure Header where
  kind : Kind
  name : List Char
  extendsText : Option (List Char)
  implementsText : Option (List Char)
  deriving Repr

def isClauseChar (c : Char) : Bool :=
  Text.isWord c || c == '<' || c == '>' || c == '.' || c == ',' || Text.isBlank c

def afterBrace? (cs : List Char) : Option (List Char) :=
  after? ['\x7b'] (cs.dropWhile Text.isBlank)

/-- The shortest clause of at least one character at the front for which `next` accepts the rest;
`done` is the clause so far, reversed. -/
def shortestClause? (next : List Char → Option β) (done : List Char) :
    List Char → Option (List Char × β)
  | [] => none
  | c :: cs =>
    if isClauseChar c then
      match next cs with
      | some b => some ((c :: done).reverse, b)
      | none => shortestClause? next (c :: done) cs
    else none

/-- Reads `WORD clause` after blanks, for the first division that `next` accepts: as many blanks as
possible belong to the gap after the word, and the clause is as short as possible. -/
def clause? (word : List Char) (next : List Char → Option β) (cs : List Char) :
    Option (List Char × β) := do
  let rest ← afterBlanks? cs
  let rest ← after? word rest
  let gap := (rest.takeWhile Text.isBlank).length
  (List.range gap).reverse.findSome? fun n => shortestClause? next [] (rest.drop (n + 1))

def implementsAndBrace? (cs : List Char) : Option (Option (List Char) × List Char) :=
  match clause? "implements".toList afterBrace? cs with
  | some (text, rest) => some (some text, rest)
  | none => (afterBrace? cs).map fun rest => (none, rest)

def clausesAndBrace? (cs : List Char) :
    Option (Option (List Char) × Option (List Char) × List Char) :=
  match clause? "extends".toList implementsAndBrace? cs with
  | some (text, impl, rest) => some (some text, impl, rest)
  | none => (implementsAndBrace? cs).map fun (impl, rest) => (none, impl, rest)

def afterTypeModifier (cs : List Char) : List Char :=
  let skip (word : String) : Option (List Char) := (after? word.toList cs).bind afterBlanks?
  ((skip "abstract").orElse fun _ => skip "final").getD cs

def kindWord? (cs : List Char) : Option (Kind × List Char) :=
  Kind.all.findSome? fun kind => (after? kind.word.toList cs).map fun rest => (kind, rest)

def header : Recogniser Header := fun cs => do
  let rest ← after? "public".toList cs
  let rest ← afterBlanks? rest
  let (kind, rest) ← kindWord? (afterTypeModifier rest)
  let rest ← afterBlanks? rest
  let (name, rest) ← run? Text.isWord rest
  let (ext, impl, rest) ← clausesAndBrace? rest
  return (⟨kind, name, ext, impl⟩, rest)

/-- Leaves out the shortest stretches from `<` to `>` on one line. -/
def dropTypeArguments (cs : List Char) : List Char :=
  go 0 [] cs
where
  /-- `skip` characters of a stretch are still to be passed; `done` is the text so far, reversed. -/
  go (skip : Nat) (done : List Char) : List Char → List Char
    | [] => done.reverse
    | c :: cs =>
      match skip with
      | skip + 1 => go skip done cs
      | 0 =>
        if c == '<' then
          match cs.span (fun d => d != '>' && d != '\n') with
          | (inner, '>' :: _) => go (inner.length + 1) done cs
          | _ => go 0 (c :: done) cs
        else go 0 (c :: done) cs

def clauseNames (text : List Char) : List Char :=
  Text.trim (dropTypeArguments (Text.trim text))

end JarAtlas.Java
