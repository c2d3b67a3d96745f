import JarAtlas.Java.Extract
import JarAtlas.Proofs.Text.Words

/-!
Source files of a simple shape, and how they are written: a package clause, then public types, each
with its header on a line of its own, one member on each line after it, and the closing brace. Forms
carry what makes them well-formed, so whatever can be built can also be written. What a source file
of this shape declares is read off its form, without its text.
-/

open String

namespace JarAtlas.Java

/-- At least one character, and only word characters. -/
def IsName (cs : List Char) : Prop :=
  cs ≠ [] ∧ ∀ c ∈ cs, Text.isWord c = true

/-- At least one character, and only word characters and dots. -/
def IsDotted (cs : List Char) : Prop :=
  cs ≠ [] ∧ ∀ c ∈ cs, (Text.isWord c || c == '.') = true

/-- At least one character, and only word characters, angle and square brackets and dots. -/
def IsType (cs : List Char) : Prop :=
  cs ≠ [] ∧ ∀ c ∈ cs, (Text.isWord c || ['<', '>', '[', ']', '.'].contains c) = true

instance (cs : List Char) : Decidable (IsName cs) :=
  inferInstanceAs (Decidable (cs ≠ [] ∧ ∀ c ∈ cs, _ = true))

instance (cs : List Char) : Decidable (IsDotted cs) :=
  inferInstanceAs (Decidable (cs ≠ [] ∧ ∀ c ∈ cs, _ = true))

instance (cs : List Char) : Decidable (IsType cs) :=
  inferInstanceAs (Decidable (cs ≠ [] ∧ ∀ c ∈ cs, _ = true))

inductive Modifier where
  | isAbstract
  | isStatic
  | isFinal
  | isSynchronized
  | isNative
  deriving DecidableEq

namespace Modifier

def word : Modifier → List Char
  | isAbstract => "abstract".toList
  | isStatic => "static".toList
  | isFinal => "final".toList
  | isSynchronized => "synchronized".toList
  | isNative => "native".toList

end Modifier

structure MethodForm where
  tag : Option (List Char)
  modifiers : List Modifier
  returns : List Char
  name : List Char
  params : List Char
  isName_tag : ∀ t ∈ tag, IsName t
  isType_returns : IsType returns
  isName_name : IsName name
  trim_params : Text.trim params = params
  plain_params : ∀ c ∈ params, c ≠ ')' ∧ c ≠ '\x7b' ∧ c ≠ '\x7d'
  /-- No part looks like the start of a declaration or like a modifier that it does not have. -/
  free : ∀ part ∈ tag.toList ++ [returns, name, params],
    Text.occursIn "public".toList part = false ∧ Text.occursIn "static".toList part = false

structure ConstantForm where
  type : List Char
  name : List Char
  value : List Char
  isType_type : IsType type
  isName_name : IsName name
  value_ne : value ≠ []
  trim_value : Text.trim value = value
  plain_value : ∀ c ∈ value, c ≠ ';' ∧ c ≠ '"' ∧ c ≠ '\n' ∧ c ≠ '\x7b' ∧ c ≠ '\x7d'
  free : ∀ part ∈ [type, name, value], Text.occursIn "public".toList part = false

inductive MemberForm where
  | method (m : MethodForm)
  | constant (k : ConstantForm)

inductive TypeModifier where
  | isAbstract
  | isFinal
  deriving DecidableEq

def TypeModifier.word : TypeModifier → List Char
  | isAbstract => "abstract".toList
  | isFinal => "final".toList

structure TypeForm where
  modifier : Option TypeModifier
  kind : Kind
  name : List Char
  parent : Option (List Char)
  interfaces : List (List Char)
  members : List MemberForm
  isName_name : IsName name
  isDotted_parent : ∀ x ∈ parent, IsDotted x
  isDotted_interfaces : ∀ x ∈ interfaces, IsDotted x
  /-- No method is a constructor. -/
  name_ne : ∀ m, .method m ∈ members → m.name ≠ name

structure SourceForm where
  package : List Char
  types : List TypeForm
  isDotted_package : IsDotted package

def spaced (words : List (List Char)) : List Char :=
  words.flatMap fun word => word ++ [' ']

@[simp] theorem spaced_nil : spaced [] = [] :=
  rfl

@[simp] theorem spaced_cons (word : List Char) (words : List (List Char)) :
    spaced (word :: words) = word ++ ' ' :: spaced words := by
  simp [spaced]

namespace MethodForm

def words (m : MethodForm) : List (List Char) :=
  m.modifiers.map Modifier.word ++ [m.returns]

/-- A method as it is written: `[@TAG ]public MODIFIERS TYPE NAME(PARAMS)`. -/
def written (m : MethodForm) : List Char :=
  spaced (m.tag.toList.map ('@' :: ·)) ++
    ("public".toList ++ ' ' :: (spaced m.words ++ (m.name ++ '(' :: (m.params ++ [')']))))

def declared (m : MethodForm) : Method where
  name := String.ofList m.name
  returns := String.ofList m.returns
  params := String.ofList m.params
  isStatic := m.modifiers.contains .isStatic
  tag := m.tag.map fun t => String.ofList ('@' :: t)
  snippet := String.ofList m.written

end MethodForm

namespace ConstantForm

def words (k : ConstantForm) : List (List Char) :=
  ["static".toList, "final".toList, k.type, k.name]

/-- A constant as it is written: `public static final TYPE NAME = VALUE;`. -/
def written (k : ConstantForm) : List Char :=
  "public".toList ++ ' ' :: (spaced k.words ++ '=' :: ' ' :: (k.value ++ [';']))

def declared (k : ConstantForm) : Constant where
  name := String.ofList k.name
  type := String.ofList k.type
  value := String.ofList k.value
  snippet := String.ofList k.written

end ConstantForm

namespace MemberForm

/-- A member on a line of its own, `indent` spaces from the left. -/
def line (indent : Nat) : MemberForm → List Char
  | method m => List.replicate indent ' ' ++ (m.written ++ [';', '\n'])
  | constant k => List.replicate indent ' ' ++ (k.written ++ ['\n'])

def method? : MemberForm → Option Method
  | method m => some m.declared
  | constant _ => none

def constant? : MemberForm → Option Constant
  | method _ => none
  | constant k => some k.declared

end MemberForm

namespace TypeForm

/-- The names of the interfaces with commas between them, if there are any. -/
def interfaceNames? (t : TypeForm) : Option (List Char) :=
  if t.interfaces.isEmpty then none else some ([',', ' '].intercalate t.interfaces)

/-- A clause of a header with the text before its names, if there are any. -/
def clause (start : List Char) : Option (List Char) → List Char
  | some names => start ++ names
  | none => []

def clauses (t : TypeForm) : List Char :=
  clause " extends ".toList t.parent ++ clause " implements ".toList t.interfaceNames?

/-- A header as it is written: `public [MODIFIER ]KIND NAME[ extends X][ implements I, J] {`. -/
def header (t : TypeForm) : List Char :=
  "public".toList ++ ' ' :: (spaced (t.modifier.toList.map TypeModifier.word) ++
    (t.kind.word.toList ++ ' ' :: (t.name ++ (t.clauses ++ [' ', '\x7b']))))

/-- The lines between the header and the closing brace. -/
def body (indent : Nat) (t : TypeForm) : List Char :=
  '\n' :: t.members.flatMap (·.line indent)

def written (indent : Nat) (t : TypeForm) : List Char :=
  t.header ++ (t.body indent ++ ['\x7d', '\n'])

def declared (package : List Char) (t : TypeForm) : TypeDecl where
  package := String.ofList package
  name := String.ofList t.name
  kind := t.kind
  methods := t.members.filterMap (·.method?)
  parent := t.parent.map String.ofList
  interfaces := t.interfaceNames?.map String.ofList
  constants := t.members.filterMap (·.constant?)

end TypeForm

namespace SourceForm

def written (indent : Nat) (s : SourceForm) : List Char :=
  "package ".toList ++ (s.package ++ ([';', '\n'] ++ s.types.flatMap (·.written indent)))

def declared (s : SourceForm) : List TypeDecl :=
  s.types.map (·.declared s.package)

end SourceForm

end JarAtlas.Java
