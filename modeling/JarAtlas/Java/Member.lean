import JarAtlas.Java.Declaration
import JarAtlas.Java.Scan

/-!
Public methods and constants inside a type's body.
-/

namespace JarAtlas.Java

def isTypeChar (c : Char) : Bool :=
  Text.isWord c || c == '<' || c == '>' || c == '[' || c == ']' || c == '.'

def modifierWords : List (List Char) :=
  ["abstract", "static", "final", "synchronized", "native"].map String.toList

def afterModifier? (cs : List Char) : Option (List Char) :=
  modifierWords.findSome? fun word => (after? word cs).bind afterBlanks?

/-- The texts after as many modifiers as possible, after one fewer, and so on to none. -/
def modifierRests : Nat → List Char → List (List Char)
  | 0, cs => [cs]
  | fuel + 1, cs =>
    match afterModifier? cs with
    | some rest => modifierRests fuel rest ++ [cs]
    | none => [cs]

structure Signature where
  tag : Option (List Char)
  returns : List Char
  name : List Char
  params : List Char
  deriving Repr

def typeNameParams? : Recogniser (List Char × List Char × List Char) := fun cs => do
  let (returns, rest) ← run? isTypeChar cs
  let rest ← afterBlanks? rest
  let (name, rest) ← run? Text.isWord rest
  let rest ← after? ['('] (rest.dropWhile Text.isBlank)
  let (params, rest) := rest.span (· != ')')
  let rest ← after? [')'] rest
  return ((returns, name, params), rest)

/-- Reads a method after its annotation. The last modifiers are read as the return type when there
is none after them. -/
def publicMethod? (tag : Option (List Char)) : Recogniser Signature := fun cs => do
  let rest ← after? "public".toList cs
  let rest ← afterBlanks? rest
  let ((returns, name, params), rest) ←
    (modifierRests rest.length rest).findSome? typeNameParams?
  return (⟨tag, returns, name, params⟩, rest)

def tag? : Recogniser (List Char) := fun cs => do
  let rest ← after? ['@'] cs
  let (name, rest) ← run? Text.isWord rest
  let rest ← afterBlanks? rest
  return ('@' :: name, rest)

def method : Recogniser Signature := fun cs =>
  match tag? cs with
  | some (name, rest) => publicMethod? (some name) rest
  | none => publicMethod? none cs

structure Assignment where
  type : List Char
  name : List Char
  value : List Char
  deriving Repr

def constant : Recogniser Assignment := fun cs => do
  let rest ← after? "public".toList cs
  let rest ← afterBlanks? rest
  let rest ← after? "static".toList rest
  let rest ← afterBlanks? rest
  let rest ← after? "final".toList rest
  let rest ← afterBlanks? rest
  let (type, rest) ← run? isTypeChar rest
  let rest ← afterBlanks? rest
  let (name, rest) ← run? Text.isWord rest
  let rest ← after? ['='] (rest.dropWhile Text.isBlank)
  let (value, rest) := (rest.dropWhile Text.isBlank).span (fun c => c != ';' && c != '\n')
  let rest ← after? [';'] rest
  return (⟨type, name, value⟩, rest)

def Method.ofMatch (m : Match Signature) : Method where
  name := String.ofList m.value.name
  returns := String.ofList m.value.returns
  params := String.ofList (Text.trim m.value.params)
  isStatic := Text.occursIn "static".toList m.covered
  tag := m.value.tag.map String.ofList
  snippet := String.ofList (Text.trim m.covered)

/-- The constant that a match stands for; quotes around its value are left out. -/
def Constant.ofMatch (m : Match Assignment) : Constant where
  name := String.ofList m.value.name
  type := String.ofList m.value.type
  value := String.ofList (Text.trimBy (· == '"') (Text.trim m.value.value))
  snippet := String.ofList (Text.trim m.covered)

def methodsIn (name : List Char) (body : List Char) : List Method :=
  ((scan method body).filter fun m => m.value.name != name).map Method.ofMatch

def constantsIn (body : List Char) : List Constant :=
  (scan constant body).map Constant.ofMatch

end JarAtlas.Java
