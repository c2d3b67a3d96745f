/-!
Double precision numbers as exact values: a finite number is `± mantissa · 2 ^ exponent`. Reading a
decimal rounds to the nearest double, and writing one uses the fewest digits that read back.
-/

namespace JarAtlas

/-- A double precision number. A finite one is kept with a mantissa below `2 ^ 53` and, unless it is
subnormal, of exactly 53 bits. -/
inductive Double where
  | finite (negative : Bool) (mantissa : Nat) (exponent : Int)
  | infinite (negative : Bool)
  | nan
  deriving DecidableEq, Repr, Inhabited

def twoTo (n : Nat) : Nat :=
  Nat.pow 2 n

def tenTo (n : Nat) : Nat :=
  Nat.pow 10 n

def roundQuotient (num den : Nat) : Nat :=
  let q := num / den
  let r := num % den
  if den < 2 * r || (2 * r == den && q % 2 == 1) then q + 1 else q

namespace Double

def leastExponent : Int := -1074

def zero (negative : Bool) : Double :=
  finite negative 0 leastExponent

def ofQuotient (negative : Bool) (num den : Nat) : Double :=
  let k : Int := Int.ofNat num.log2 - Int.ofNat den.log2
  -- `num / den` lies between `2 ^ (k - 1)` and `2 ^ (k + 1)`.
  let reaches (e : Int) : Bool := den * twoTo e.toNat ≤ num * twoTo (-e).toNat
  let e₀ := if reaches k then k - 52 else k - 53
  let e := max e₀ leastExponent
  let q := roundQuotient (num * twoTo (-e).toNat) (den * twoTo e.toNat)
  let (m, e) := if q == twoTo 53 then (twoTo 52, e + 1) else (q, e)
  if e > 971 then infinite negative else finite negative m e

def ofDecimal (negative : Bool) (digits : Nat) (exponent : Int) : Double :=
  let size : Int := Int.ofNat (Nat.toDigits 10 digits).length
  if digits == 0 || exponent + size < -330 then zero negative
  else if exponent + size > 330 then infinite negative
  else ofQuotient negative (digits * tenTo exponent.toNat) (tenTo (-exponent).toNat)

def scale (factor : Nat) : Double → Double
  | finite negative 0 e => finite negative 0 e
  | finite negative m e =>
    if factor == 0 then zero negative
    else ofQuotient negative (m * factor * twoTo e.toNat) (twoTo (-e).toNat)
  | d => if factor == 0 then nan else d

def truncate? : Double → Option Int
  | finite negative m e =>
    let n : Int := Int.ofNat (if e < 0 then m / twoTo (-e).toNat else m * twoTo e.toNat)
    some (if negative then -n else n)
  | _ => none

def toInt? : Double → Option Int
  | finite negative m e =>
    let unit := twoTo (-e).toNat
    if m % unit == 0 then
      let n : Int := Int.ofNat (m / unit * twoTo e.toNat)
      some (if negative then -n else n)
    else none
  | _ => none

def leInt (d : Double) (n : Int) : Bool :=
  match d with
  | nan => false
  | infinite negative => negative
  | finite negative m e =>
    let m : Int := if negative then -Int.ofNat m else Int.ofNat m
    decide (m * twoTo e.toNat ≤ n * twoTo (-e).toNat)

def isBelow (d : Double) (n : Int) : Bool :=
  d.leInt n && d.toInt? != some n

/-- The decimal exponent of the first digit of `m · 2 ^ e`, for positive `m`. -/
def leadingPower (m : Nat) (e : Int) : Int :=
  let num := m * twoTo e.toNat
  let den := twoTo (-e).toNat
  if den ≤ num then Int.ofNat (Nat.toDigits 10 (num / den)).length - 1
  else
    -- `den / num` rounded up has the digits that the number lacks before its first one.
    let n := (den + num - 1) / num
    let size := (Nat.toDigits 10 n).length
    if n == tenTo (size - 1) then 1 - Int.ofNat size else -Int.ofNat size

/-- `m · 2 ^ e` rounded to `count` significant digits, as those digits and the exponent of the
first one. -/
def roundedDigits (count : Nat) (m : Nat) (e : Int) : Nat × Int :=
  let p := leadingPower m e
  let k := p - Int.ofNat count + 1
  let q := roundQuotient (m * twoTo e.toNat * tenTo (-k).toNat) (twoTo (-e).toNat * tenTo k.toNat)
  if q == tenTo count then (tenTo (count - 1), p + 1) else (q, p)

/-- The first count of digits, from `count` on and at most `17`, for which a decimal of so many
digits rounds to `m · 2 ^ e`, with that decimal's digits and the exponent of its first one. Of two
such decimals the nearer one is taken. -/
def shortestFrom (m : Nat) (e : Int) : Nat → Nat → Nat × Int
  | 0, count => roundedDigits count m e
  | fuel + 1, count =>
    let p := leadingPower m e
    let k := p - Int.ofNat count + 1
    let num := m * twoTo e.toNat * tenTo (-k).toNat
    let den := twoTo (-e).toNat * tenTo k.toNat
    let low := num / den
    let readsBack (c : Nat) : Bool := ofDecimal false c k == finite false m e
    let near := roundQuotient num den
    let far := if near == low then low + 1 else low
    if readsBack near then finish near p count
    else if readsBack far then finish far p count
    else shortestFrom m e fuel (count + 1)
where
  finish (c : Nat) (p : Int) (count : Nat) : Nat × Int :=
    if c == tenTo count then (tenTo (count - 1), p + 1) else (c, p)

/-- The fewest digits that read back, without trailing zeros, and the exponent of the first one. -/
def shortest (m : Nat) (e : Int) : List Char × Int :=
  let (c, p) := shortestFrom m e 16 1
  ((Nat.toDigits 10 c).reverse.dropWhile (· == '0') |>.reverse, p)

/-- How a decimal is laid out: up to which exponents of the first digit it is written without an
exponent. -/
structure Layout where
  lowest : Int
  highest : Int
  keepsFraction : Bool

def exponentText (p : Int) : List Char :=
  let digits := Nat.toDigits 10 p.natAbs
  'e' :: (if p < 0 then '-' else '+') :: (if digits.length < 2 then '0' :: digits else digits)

def layOut (layout : Layout) (digits : List Char) (p : Int) : List Char :=
  if layout.lowest ≤ p && p < layout.highest then
    if p < 0 then '0' :: '.' :: (List.replicate ((-p).toNat - 1) '0' ++ digits)
    else
      let whole := digits.take (p.toNat + 1)
      let part := digits.drop (p.toNat + 1)
      whole ++ List.replicate (p.toNat + 1 - whole.length) '0' ++
        '.' :: (if part.isEmpty then ['0'] else part)
  else
    match digits with
    | [] => ['0']
    | d :: [] => (if layout.keepsFraction then [d, '.', '0'] else [d]) ++ exponentText p
    | d :: ds => d :: '.' :: ds ++ exponentText p

def signText (negative : Bool) : List Char :=
  if negative then ['-'] else []

/-- Numbers are written positionally from `0.0001` to below `10 ^ 16`. -/
def plainLayout : Layout := ⟨-4, 16, false⟩

def text : Double → String
  | nan => "nan"
  | infinite negative => String.ofList (signText negative ++ "inf".toList)
  | finite negative 0 _ => String.ofList (signText negative ++ "0.0".toList)
  | finite negative m e =>
    let (digits, p) := shortest m e
    String.ofList (signText negative ++ layOut plainLayout digits p)

def share (divisor : Nat) : Double → Double
  | finite negative 0 e => finite negative 0 e
  | finite negative m e => ofQuotient negative (m * twoTo e.toNat) (divisor * twoTo (-e).toNat)
  | d => d

def tenths (m : Nat) (e : Int) : Nat :=
  roundQuotient (10 * m * twoTo e.toNat) (twoTo (-e).toNat)

/-- The text of a number with one place behind the point; a half goes to the even neighbour. -/
def onePlace : Double → String
  | nan => "nan"
  | infinite negative => String.ofList (signText negative ++ "inf".toList)
  | finite negative m e =>
    let n := tenths m e
    String.ofList (signText negative) ++ toString (n / 10) ++ "." ++ toString (n % 10)

end Double

end JarAtlas
