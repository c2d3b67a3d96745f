import JarAtlas.Java.Header
import JarAtlas.Java.Member

/-!
The public types of a source file. A type's body runs from its opening brace to the brace that
closes it, or to the end of the text; members of nested types count for the outer type too.
-/

namespace JarAtlas.Java

/-- What stands before the brace that closes `depth + 1` open ones; `done` is reversed. -/
def untilClosed (depth : Nat) (done : List Char) : List Char → List Char
  | [] => done.reverse
  | c :: cs =>
    if c == '\x7b' then untilClosed (depth + 1) (c :: done) cs
    else if c == '\x7d' then
      match depth with
      | 0 => done.reverse
      | depth + 1 => untilClosed depth (c :: done) cs
    else untilClosed depth (c :: done) cs

def bodyFrom (cs : List Char) (start : Nat) : List Char :=
  untilClosed 0 [] (cs.drop start)

def TypeDecl.ofMatch (package : String) (cs : List Char) (m : Match Header) : TypeDecl :=
  let body := bodyFrom cs m.stop
  { package := package
    name := String.ofList m.value.name
    kind := m.value.kind
    methods := methodsIn m.value.name body
    parent := m.value.extendsText.map fun text => String.ofList (clauseNames text)
    interfaces := m.value.implementsText.map fun text => String.ofList (clauseNames text)
    constants := constantsIn body }

/-- The public types of a text. Without a package clause nothing counts. -/
def extractChars (cs : List Char) : List TypeDecl :=
  match packageOf? cs with
  | none => []
  | some package => (scan header cs).map (TypeDecl.ofMatch (String.ofList package) cs)

def extract (source : String) : List TypeDecl :=
  extractChars source.toList

end JarAtlas.Java
