import JarAtlas.Fault
import JarAtlas.Number.Stored

/-!
Values as a database keeps them, and how a column of texts or of whole numbers takes them.
-/

namespace JarAtlas

inductive Cell where
  | null
  | int (n : Int)
  | real (d : Double)
  | text (s : String)
  deriving DecidableEq, Repr, Inhabited

namespace Cell

def fits (n : Int) : Bool :=
  -9223372036854775808 ≤ n && n ≤ 9223372036854775807

def ofJson (position : Nat) : Json → Except Fault Cell
  | .null => .ok null
  | .bool b => .ok (int (if b then 1 else 0))
  | .int n => if fits n then .ok (int n) else .error .tooLarge
  | .double .nan => .ok null
  | .double d => .ok (real d)
  | .str s => .ok (text s)
  | .torn _ => .error .badOutput
  | .misnamed v => ofJson position v
  | .arr items => .error (.store (.unbindable position (Json.kindName (.arr items))))
  | .obj fields => .error (.store (.unbindable position (Json.kindName (.obj fields))))

def ofJsonsFrom (position : Nat) : List Json → Except Fault (List Cell)
  | [] => .ok []
  | v :: vs => do
    let cell ← ofJson position v
    let cells ← ofJsonsFrom (position + 1) vs
    return cell :: cells

def ofJsons (vs : List Json) : Except Fault (List Cell) :=
  ofJsonsFrom 1 vs

def toJson : Cell → Json
  | null => .null
  | int n => .int n
  | real d => .double d
  | text s => .str s

def ofText? : Option String → Cell
  | some s => text s
  | none => null

def asText : Cell → Option String
  | null => none
  | int n => some (toString n)
  | real d => d.storedText
  | text s => some s

def wholeOrReal (d : Double) : Cell :=
  match d.toInt? with
  | some n => if -9223372036854775808 < n && n < 9223372036854775807 then int n else real d
  | none => real d

/-- What a column of whole numbers keeps of the value: texts that spell numbers become numbers. -/
def asWhole : Cell → Cell
  | null => null
  | int n => int n
  | real d => wholeOrReal d
  | text s =>
    match readNumeral? s with
    | none => text s
    | some n => if n.isWhole && fits n.toInt then int n.toInt else wholeOrReal n.toDouble

def int? : Cell → Option Int
  | int n => some n
  | _ => none

def text? : Cell → Option String
  | text s => some s
  | _ => none

/-- The number of rows that a query may give: `none` for a value that is no whole number, and no
limit for a negative one. -/
def limit? (c : Cell) : Option (Option Nat) :=
  match c.asWhole with
  | int n => some (if n < 0 then none else some n.toNat)
  | _ => none

def isGiven (c : Cell) : Bool :=
  c.toJson.isGiven

end Cell

def takeLimit (limit : Option Nat) (rows : List α) : List α :=
  match limit with
  | some n => rows.take n
  | none => rows

/-! ### Patterns with wildcards

A `%` stands for any text and a `_` for any character. ASCII letters match in either case. A null
character ends a pattern, and the text that is compared with it. -/

/-- What follows in a text after a stretch of a pattern without `%`, if the text begins with it. -/
def afterStretch? : List Char → List Char → Option (List Char)
  | [], s => some s
  | _ :: _, [] => none
  | c :: p, d :: s => if c == '_' || c.toLower == d.toLower then afterStretch? p s else none

def afterFirst? (stretch : List Char) : List Char → Option (List Char)
  | [] => afterStretch? stretch []
  | d :: s =>
    match afterStretch? stretch (d :: s) with
    | some rest => some rest
    | none => afterFirst? stretch s

def endFits (stretch s : List Char) : Bool :=
  stretch.length ≤ s.length && (afterStretch? stretch (s.drop (s.length - stretch.length))).isSome

/-- Whether stretches occur in a text one after another, the last one at its end. -/
def stretchesFit : List (List Char) → List Char → Bool
  | [], _ => true
  | [last], s => endFits last s
  | stretch :: stretches, s =>
    match afterFirst? stretch s with
    | some rest => stretchesFit stretches rest
    | none => false

def likeChars (pattern s : List Char) : Bool :=
  match pattern.splitOn '%' with
  | [] => false
  | [only] => afterStretch? only s == some []
  | first :: stretches =>
    match afterStretch? first s with
    | some rest => stretchesFit stretches rest
    | none => false

def comparedChars (s : String) : List Char :=
  s.toList.takeWhile (·.toNat != 0)

def like (pattern text : String) : Bool :=
  likeChars (comparedChars pattern) (comparedChars text)

def likeSome (pattern : String) (text : Option String) : Bool :=
  text.any (like pattern)

def maxPatternSize : Nat := 50000

def isOverlong (pattern : String) : Bool :=
  maxPatternSize < pattern.utf8ByteSize

end JarAtlas
