import JarAtlas.Json.Basic
import JarAtlas.Number.Numeral

/-!
Reading JSON text. Repeated names in an object keep the first place and the last value. Raw control
characters inside strings, text after the value and a byte order mark are refused; the names of the
values that are no numbers are read. Whole numbers have a limited number of digits, and arrays and
objects a limited depth.
-/

namespace JarAtlas.Json

def isGap (c : Char) : Bool :=
  c == ' ' || c == '\t' || c == '\n' || c == '\r'

def skipGaps (cs : List Char) : List Char :=
  cs.dropWhile isGap

def hexValue? (c : Char) : Option Nat :=
  let n := c.toNat
  if 48 ≤ n && n ≤ 57 then some (n - 48)
  else if 97 ≤ n && n ≤ 102 then some (n - 87)
  else if 65 ≤ n && n ≤ 70 then some (n - 55)
  else none

def hexFour? (a b c d : Char) : Option Nat := do
  return ((← hexValue? a) * 16 + (← hexValue? b)) * 256 + (← hexValue? c) * 16 + (← hexValue? d)

def escaped? (c : Char) : Option Char :=
  match c with
  | '"' => some '"'
  | '\\' => some '\\'
  | '/' => some '/'
  | 'b' => some (Char.ofNat 8)
  | 'f' => some (Char.ofNat 12)
  | 'n' => some '\n'
  | 'r' => some '\r'
  | 't' => some '\t'
  | _ => none

def isHighUnit (n : Nat) : Bool :=
  0xD800 ≤ n && n ≤ 0xDBFF

def isLowUnit (n : Nat) : Bool :=
  0xDC00 ≤ n && n ≤ 0xDFFF

inductive ReadError where
  | malformed
  | tooManyDigits
  | tooNested
  deriving DecidableEq, Repr

structure Draft where
  high : Option Nat := none
  done : List Char := []
  isTorn : Bool := false

namespace Draft

/-- Half of a pair alone stands for no character and leaves a replacement mark. -/
def tear (d : Draft) : Draft :=
  { d with done := Char.ofNat 0xFFFD :: d.done, isTorn := true }

def flush (d : Draft) : Draft :=
  match d.high with
  | some _ => { d.tear with high := none }
  | none => d

def push (d : Draft) (c : Char) : Draft :=
  let d := d.flush
  { d with done := c :: d.done }

def takeUnit (d : Draft) (n : Nat) : Draft :=
  if isLowUnit n then
    match d.high with
    | some h =>
      { d with
        high := none
        done := Char.ofNat (0x10000 + (h - 0xD800) * 1024 + (n - 0xDC00)) :: d.done }
    | none => d.tear
  else if isHighUnit n then { d.flush with high := some n }
  else d.push (Char.ofNat n)

def finish (d : Draft) : String × Bool :=
  let d := d.flush
  (String.ofList d.done.reverse, d.isTorn)

end Draft

def readString (d : Draft) : List Char → Option ((String × Bool) × List Char)
  | [] => none
  | '"' :: rest => some (d.finish, rest)
  | '\\' :: 'u' :: a :: b :: c :: e :: rest =>
    match hexFour? a b c e with
    | some n => readString (d.takeUnit n) rest
    | none => none
  | '\\' :: c :: rest =>
    match escaped? c with
    | some c => readString (d.push c) rest
    | none => none
  | c :: rest =>
    if c.toNat < 32 || c == '\\' then none else readString (d.push c) rest
termination_by structural cs => cs

/-- An outcome of reading: a value, or fields or items, and the rest of the text. -/
abbrev Read (α : Type) := Except ReadError (α × List Char)

/-- Reads an exponent: the mark, a sign and at least one digit. Without all of these nothing is
read. -/
def readPower (cs : List Char) : Int × List Char × Bool :=
  match cs with
  | c :: r =>
    if c == 'e' || c == 'E' then
      let (negative, r) : Bool × List Char := match r with
        | '-' :: r => (true, r)
        | '+' :: r => (false, r)
        | r => (false, r)
      match r.span Char.isDigit with
      | ([], _) => (0, cs, false)
      | (ds, rest) =>
        let n := Int.ofNat (asciiDigits ds)
        (if negative then -n else n, rest, true)
    else (0, cs, false)
  | [] => (0, cs, false)

def readNumber (negative : Bool) (cs : List Char) : Read Json :=
  let (whole, rest) : List Char × List Char := match cs with
    | '0' :: rest => (['0'], rest)
    | cs => cs.span Char.isDigit
  if whole.isEmpty then .error .malformed
  else
    let (part, rest) : List Char × List Char := match rest with
      | '.' :: r =>
        match r.span Char.isDigit with
        | ([], _) => ([], rest)
        | (ds, after) => (ds, after)
      | rest => ([], rest)
    let (e, rest, hasPower) := readPower rest
    if part.isEmpty && !hasPower then
      if maxDigits < whole.length then .error .tooManyDigits
      else
        let n := Int.ofNat (asciiDigits whole)
        .ok (int (if negative then -n else n), rest)
    else
      .ok (double (Double.ofDecimal negative (asciiDigits (whole ++ part))
        (e - Int.ofNat part.length)), rest)

def readScalar (cs : List Char) : Read Json :=
  match cs with
  | 'n' :: 'u' :: 'l' :: 'l' :: rest => .ok (null, rest)
  | 't' :: 'r' :: 'u' :: 'e' :: rest => .ok (bool true, rest)
  | 'f' :: 'a' :: 'l' :: 's' :: 'e' :: rest => .ok (bool false, rest)
  | 'N' :: 'a' :: 'N' :: rest => .ok (double .nan, rest)
  | 'I' :: 'n' :: 'f' :: 'i' :: 'n' :: 'i' :: 't' :: 'y' :: rest =>
    .ok (double (.infinite false), rest)
  | '-' :: 'I' :: 'n' :: 'f' :: 'i' :: 'n' :: 'i' :: 't' :: 'y' :: rest =>
    .ok (double (.infinite true), rest)
  | '-' :: rest => readNumber true rest
  | cs => readNumber false cs

mutual

/-- Reads a value at the front of the text. At most `depth` arrays and objects may be open at once.
Every step into a value uses one unit of `fuel`; the length of the text is enough. -/
def readValue (depth : Nat) : Nat → List Char → Read Json
  | 0, _ => .error .malformed
  | fuel + 1, cs =>
    match cs with
    | '"' :: rest =>
      match readString {} rest with
      | some ((s, isTorn), rest) => .ok (if isTorn then torn s else str s, rest)
      | none => .error .malformed
    | '[' :: rest =>
      if depth == 0 then .error .tooNested
      else
        match skipGaps rest with
        | ']' :: rest => .ok (arr [], rest)
        | rest => (readItems (depth - 1) fuel [] rest).map fun (items, rest) => (arr items, rest)
    | '\x7b' :: rest =>
      if depth == 0 then .error .tooNested
      else
        match skipGaps rest with
        | '\x7d' :: rest => .ok (obj [], rest)
        | rest =>
          (readFields (depth - 1) fuel [] rest).map fun (fields, rest) => (obj fields, rest)
    | cs => readScalar cs

def readItems (depth : Nat) : Nat → List Json → List Char → Read (List Json)
  | 0, _, _ => .error .malformed
  | fuel + 1, done, cs =>
    match readValue depth fuel cs with
    | .error e => .error e
    | .ok (item, rest) =>
      match skipGaps rest with
      | ',' :: rest => readItems depth fuel (item :: done) (skipGaps rest)
      | ']' :: rest => .ok ((item :: done).reverse, rest)
      | _ => .error .malformed

def readFields (depth : Nat) : Nat → List (String × Json) → List Char →
    Read (List (String × Json))
  | 0, _, _ => .error .malformed
  | fuel + 1, done, cs =>
    match cs with
    | '"' :: rest =>
      match readString {} rest with
      | none => .error .malformed
      | some ((name, isTorn), rest) =>
        match skipGaps rest with
        | ':' :: rest =>
          match readValue depth fuel (skipGaps rest) with
          | .error e => .error e
          | .ok (value, rest) =>
            let done := assign name (if isTorn then misnamed value else value) done
            match skipGaps rest with
            | ',' :: rest => readFields depth fuel done (skipGaps rest)
            | '\x7d' :: rest => .ok (done, rest)
            | _ => .error .malformed
        | _ => .error .malformed
    | _ => .error .malformed

end

def maxDepth : Nat := 985

def parse (cs : List Char) : Except ReadError Json :=
  match readValue maxDepth (2 * cs.length + 2) (skipGaps cs) with
  | .ok (v, rest) => if (skipGaps rest).isEmpty then .ok v else .error .malformed
  | .error e => .error e

def parse? (cs : List Char) : Option Json :=
  (parse cs).toOption

end JarAtlas.Json
