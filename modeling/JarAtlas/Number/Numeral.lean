import JarAtlas.Number.Double
import JarAtlas.Text.Blank
import JarAtlas.Text.Letters

/-!
Reading numbers from text: whole numbers as people type them, and the numerals that a number column
accepts.
-/

namespace JarAtlas

def digitsValue (ds : List Nat) : Nat :=
  ds.foldl (fun n d => 10 * n + d) 0

/-- Decimal digits of any script, where single underscores may stand between two of them. -/
def groupedDigits? : List Char → Option (List Nat)
  | [] => some []
  | '_' :: c :: cs => do
    let d ← Text.digitValue? c
    let ds ← groupedDigits? cs
    return d :: ds
  | c :: cs => do
    let d ← Text.digitValue? c
    let ds ← groupedDigits? cs
    return d :: ds

def maxDigits : Nat := 4300

/-- The whole number that a text spells: blanks around it, other than information separators, a
sign, and grouped digits. -/
def readInt? (s : String) : Option Int :=
  let isSpace (c : Char) : Bool := Text.isBlank c && !(0x1c ≤ c.toNat && c.toNat ≤ 0x1f)
  let cs := Text.trimBy isSpace s.toList
  let (negative, cs) : Bool × List Char := match cs with
    | '-' :: cs => (true, cs)
    | '+' :: cs => (false, cs)
    | cs => (false, cs)
  match cs with
  | [] => none
  | '_' :: _ => none
  | cs => do
    let ds ← groupedDigits? cs
    if ds.length ≤ maxDigits then
      let n := Int.ofNat (digitsValue ds)
      return if negative then -n else n
    else none

structure Numeral where
  negative : Bool
  whole : List Nat
  part : List Nat
  power : Int
  isWhole : Bool
  deriving DecidableEq, Repr

def Numeral.toInt (n : Numeral) : Int :=
  let size := Int.ofNat (digitsValue n.whole)
  if n.negative then -size else size

def asciiDigits (cs : List Char) : Nat :=
  digitsValue (cs.map fun c => c.toNat - 48)

/-- The value of an exponent; beyond four digits it is only known to be large. -/
def exponentValue (cs : List Char) : Nat :=
  cs.foldl (fun e c => if e < 10000 then 10 * e + (c.toNat - 48) else 10000) 0

/-- Reads an exponent: the mark, a sign and at least one digit. Without all of these nothing is
read. -/
def readExponent (cs : List Char) : Int × List Char × Bool :=
  match cs with
  | c :: r =>
    if c == 'e' || c == 'E' then
      let (negative, r) : Bool × List Char := match r with
        | '-' :: r => (true, r)
        | '+' :: r => (false, r)
        | r => (false, r)
      match r.span Char.isDigit with
      | ([], _) => (0, cs, false)
      | (ds, rest) =>
        let n := Int.ofNat (exponentValue ds)
        (if negative then -n else n, rest, true)
    else (0, cs, false)
  | [] => (0, cs, false)

/-- The numeral that fills a text up to blanks around it: a sign, digits with a point among or next
to them, and an exponent. -/
def readNumeral? (s : String) : Option Numeral :=
  let isSpace (c : Char) : Bool := c == ' ' || (9 ≤ c.toNat && c.toNat ≤ 13)
  let cs := Text.trimBy isSpace s.toList
  let (negative, cs) : Bool × List Char := match cs with
    | '-' :: cs => (true, cs)
    | '+' :: cs => (false, cs)
    | cs => (false, cs)
  let (whole, rest) := cs.span Char.isDigit
  let (part, rest, point) : List Char × List Char × Bool := match rest with
    | '.' :: r => ((r.span Char.isDigit).1, (r.span Char.isDigit).2, true)
    | r => ([], r, false)
  if whole.isEmpty && part.isEmpty then none
  else
    let (e, rest, hasExponent) := readExponent rest
    if rest.isEmpty then
      let digits (cs : List Char) : List Nat := cs.map fun c => c.toNat - 48
      some ⟨negative, digits whole, digits part, e, !point && !hasExponent⟩
    else none

end JarAtlas
