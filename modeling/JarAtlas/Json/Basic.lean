import JarAtlas.Number.Double

/-!
JSON values. An object keeps its fields in the order in which their names were first given.
-/

namespace JarAtlas

/-- A JSON value. Whole numbers have any size; other numbers are doubles. -/
inductive Json where
  | null
  | bool (b : Bool)
  | int (n : Int)
  | double (d : Double)
  | str (s : String)
  /-- A text with halves of character pairs, which no encoding can write. Each half is kept as a
  replacement mark. -/
  | torn (s : String)
  /-- The value of a field whose name has halves of character pairs. -/
  | misnamed (v : Json)
  | arr (items : List Json)
  | obj (fields : List (String × Json))
  deriving Repr, Inhabited

namespace Json

mutual

def same : Json → Json → Bool
  | null, null => true
  | bool a, bool b => a == b
  | int a, int b => a == b
  | double a, double b => a == b
  | str a, str b => a == b
  | torn a, torn b => a == b
  | misnamed a, misnamed b => same a b
  | arr a, arr b => sameItems a b
  | obj a, obj b => sameFields a b
  | _, _ => false

def sameItems : List Json → List Json → Bool
  | [], [] => true
  | a :: as, b :: bs => same a b && sameItems as bs
  | _, _ => false

def sameFields : List (String × Json) → List (String × Json) → Bool
  | [], [] => true
  | (name, a) :: as, (other, b) :: bs => name == other && same a b && sameFields as bs
  | _, _ => false

end

instance : BEq Json := ⟨same⟩

def lookup (name : String) (fields : List (String × Json)) : Option Json :=
  (fields.find? fun field => field.1 == name).map (·.2)

/-- The fields with `name` given `value`: in its old place, or else at the end. -/
def assign (name : String) (value : Json) : List (String × Json) → List (String × Json)
  | [] => [(name, value)]
  | (key, old) :: rest =>
    if key == name then (key, value) :: rest else (key, old) :: assign name value rest

def without (name : String) (fields : List (String × Json)) : List (String × Json) :=
  fields.filter fun field => field.1 != name

def get? (v : Json) (name : String) : Option Json :=
  match v with
  | obj fields => lookup name fields
  | _ => none

def text? : Json → Option String
  | str s => some s
  | torn s => some s
  | _ => none

def ofText? : Option String → Json
  | some s => str s
  | none => null

def ofNat (n : Nat) : Json :=
  int (Int.ofNat n)

/-- Whether a value counts as given: null, `false`, zero and what is empty do not. -/
def isGiven : Json → Bool
  | null => false
  | bool b => b
  | int n => n != 0
  | double (.finite _ m _) => m != 0
  | double _ => true
  | str s => s != ""
  | torn _ => true
  | misnamed v => v.isGiven
  | arr items => !items.isEmpty
  | obj fields => !fields.isEmpty

def kindName : Json → String
  | null => "NoneType"
  | bool _ => "bool"
  | int _ => "int"
  | double _ => "float"
  | str _ => "str"
  | torn _ => "str"
  | misnamed v => v.kindName
  | arr _ => "list"
  | obj _ => "dict"

end Json

end JarAtlas
