import JarAtlas.Fault

/-!
Texts and whole numbers that arguments mean.
-/

namespace JarAtlas

namespace Json

def asText : Json → Except Fault String
  | str s => .ok s
  | v => .error (.notText v.kindName)

def stripped (v : Json) : Except Fault String :=
  return Text.strip (← v.asText)

def givenText (v : Json) : Except Fault String :=
  if v.isGiven then v.asText else .ok ""

def pathText : Json → Except Fault String
  | str s => .ok s
  | _ => .error (.wrongKind "")

/-- The whole number that a value means: numbers lose their fraction and texts are read. -/
def toWhole : Json → Except Fault Int
  | int n => .ok n
  | bool b => .ok (if b then 1 else 0)
  | double .nan => .error .badValue
  | double d =>
    match d.truncate? with
    | some n => .ok n
    | none => .error .tooLarge
  | str s =>
    match readInt? s with
    | some n => .ok n
    | none => .error .badValue
  | _ => .error (.wrongKind "")

/-- The value `factor` times: numbers are multiplied, texts and arrays repeated. -/
def times (factor : Nat) : Json → Except Fault Json
  | int n => .ok (int (n * factor))
  | bool b => .ok (int (if b then factor else 0))
  | double d => .ok (double (d.scale factor))
  | str s => .ok (str (String.ofList (List.replicate factor s.toList).flatten))
  | arr items => .ok (arr (List.replicate factor items).flatten)
  | _ => .error (.wrongKind "")

def reachedBy (limit : Json) (count : Nat) : Except Fault Bool :=
  match limit with
  | int n => .ok (decide (n ≤ Int.ofNat count))
  | bool b => .ok (decide ((if b then 1 else 0) ≤ count))
  | double d => .ok (d.leInt (Int.ofNat count))
  | v => .error (.wrongKind
      ("'>=' not supported between instances of 'int' and '" ++ v.kindName ++ "'"))

end Json

def clamp (low high n : Int) : Int :=
  max low (min n high)

def Json.clamp (low high : Int) : Json → Except Fault Json
  | int n => .ok (int (JarAtlas.clamp low high n))
  | bool b => .ok (int (JarAtlas.clamp low high (if b then 1 else 0)))
  | double d =>
    if !d.leInt high then .ok (int high)
    else if d.leInt low then .ok (int low)
    else .ok (double d)
  | _ => .error (.wrongKind "")

def Json.atLeastZero : Json → Except Fault Json
  | int n => .ok (int (max 0 n))
  | bool b => .ok (int (if b then 1 else 0))
  | double d => if d.leInt 0 then .ok (int 0) else .ok (double d)
  | _ => .error (.wrongKind "")

end JarAtlas
