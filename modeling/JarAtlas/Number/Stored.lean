import JarAtlas.Number.Numeral

/-!
Numbers as a database writes them into a text column and reads them from a text. Both go through
extended precision numbers, so the last digits may differ from those of the nearest decimal or
double.
-/

namespace JarAtlas

/-- An extended precision number: not negative, with a mantissa of at most 64 bits. Each operation
gives the nearest such number to the exact result, and a half goes to the even neighbour. -/
structure Extended where
  mantissa : Nat
  exponent : Int
  deriving DecidableEq, Repr

namespace Extended

/-- The extended number nearest to `num / den`, for positive `den`. -/
def ofQuotient (num den : Nat) : Extended :=
  if num == 0 then ⟨0, 0⟩
  else
    let k : Int := Int.ofNat num.log2 - Int.ofNat den.log2
    let reaches : Bool := den * twoTo k.toNat ≤ num * twoTo (-k).toNat
    let e := if reaches then k - 63 else k - 64
    ⟨roundQuotient (num * twoTo (-e).toNat) (den * twoTo e.toNat), e⟩

def quotient (x : Extended) : Nat × Nat :=
  (x.mantissa * twoTo x.exponent.toNat, twoTo (-x.exponent).toNat)

def ofNat (n : Nat) : Extended :=
  ofQuotient n 1

def ofDouble : Double → Extended
  | .finite _ m e => ⟨m, e⟩
  | _ => ⟨0, 0⟩

def mul (x y : Extended) : Extended :=
  let (a, b) := x.quotient
  let (c, d) := y.quotient
  ofQuotient (a * c) (b * d)

def div (x y : Extended) : Extended :=
  let (a, b) := x.quotient
  let (c, d) := y.quotient
  ofQuotient (a * d) (b * c)

def add (x y : Extended) : Extended :=
  let (a, b) := x.quotient
  let (c, d) := y.quotient
  ofQuotient (a * d + c * b) (b * d)

def sub (x y : Extended) : Extended :=
  let (a, b) := x.quotient
  let (c, d) := y.quotient
  ofQuotient (a * d - c * b) (b * d)

def le (x y : Extended) : Bool :=
  let (a, b) := x.quotient
  let (c, d) := y.quotient
  a * d ≤ c * b

def lt (x y : Extended) : Bool :=
  !y.le x

def floor (x : Extended) : Nat :=
  let (a, b) := x.quotient
  a / b

def toDouble (negative : Bool) (x : Extended) : Double :=
  let (a, b) := x.quotient
  if a == 0 then Double.zero negative else Double.ofQuotient negative a b

/-- The power `10 ^ n` as repeated squaring gives it, which is not always the nearest number. -/
def tenPower (n : Nat) : Extended :=
  go n (ofNat 10) (ofNat 1) n
where
  go (fuel : Nat) (square result : Extended) (n : Nat) : Extended :=
    match fuel with
    | 0 => result
    | fuel + 1 =>
      if n == 0 then result
      else
        let result := if n % 2 == 1 then result.mul square else result
        go fuel (square.mul square) result (n / 2)

end Extended

namespace Extended

/-- The double nearest to `digits · 10 ^ exponent`, exactly extended. -/
def constant (digits : Nat) (exponent : Int) : Extended :=
  ofDouble (Double.ofDecimal false digits exponent)

/-- Multiplies `scale` by a power of ten while the product is at most `x`; counts its exponent. -/
def raise (x : Extended) (power : Nat) : Nat → Extended → Int → Extended × Int
  | 0, scale, p => (scale, p)
  | fuel + 1, scale, p =>
    let factor := constant 1 power
    if (factor.mul scale).le x then x.raise power fuel (scale.mul factor) (p + power)
    else (scale, p)

/-- Multiplies the number by a power of ten while it is below a bound; counts the exponent down. -/
def lift (bound : Extended) (power : Nat) : Nat → Extended → Int → Extended × Int
  | 0, x, p => (x, p)
  | fuel + 1, x, p =>
    if x.lt bound then lift bound power fuel (x.mul (constant 1 power)) (p - power)
    else (x, p)

/-- A positive number as one between 1 and 10 and the exponent of its first digit. -/
def normalized (x : Extended) : Extended × Int :=
  let (scale, p) := x.raise 100 4 (ofNat 1) 0
  let (scale, p) := x.raise 10 40 scale p
  let (scale, p) := x.raise 1 40 scale p
  let (x, p) := lift (constant 1 (-8)) 8 50 (x.div scale) p
  lift (ofNat 1) 1 10 x p

def leadingDigits : Nat → Extended → List Nat
  | 0, _ => []
  | n + 1, x =>
    let d := x.floor
    d :: leadingDigits n ((x.sub (ofNat d)).mul (ofNat 10))

end Extended

def fifteenRounder : Extended :=
  let half := Extended.constant 5 (-5)
  let tiny := Extended.constant 1 (-10)
  -- The product is rounded to a double.
  match (half.quotient, tiny.quotient) with
  | ((a, b), (c, d)) => Extended.ofDouble (Double.ofQuotient false (a * c) (b * d))

namespace Double

/-- Stored numbers are written positionally from `0.0001` to below `10 ^ 15`. -/
def storedLayout : Layout := ⟨-4, 15, true⟩

/-- The text of the number `± m · 2 ^ e`, not zero, with fifteen significant digits. -/
def fifteenDigits (negative : Bool) (m : Nat) (e : Int) : String :=
  let (x, p) := (Extended.mk m e).normalized
  let x := x.add fifteenRounder
  let (x, p) : Extended × Int :=
    if (Extended.ofNat 10).le x then (x.mul (Extended.constant 1 (-1)), p + 1) else (x, p)
  let digits := (x.leadingDigits 15).map fun d => Char.ofNat (48 + d)
  let digits := (digits.reverse.dropWhile (· == '0')).reverse
  String.ofList (signText negative ++ layOut storedLayout digits p)

def storedText : Double → Option String
  | nan => none
  | infinite negative => some (if negative then "-Inf" else "Inf")
  | finite _ 0 _ => some "0.0"
  | finite negative m e => some (fifteenDigits negative m e)

end Double

def greatestWhole : Nat := 9223372036854775807

/-- The significant digits of a numeral as one number, and the power of ten of its last digit.
Digits that would make the number too large are left out. -/
def Numeral.significand (n : Numeral) : Nat × Int :=
  let bound := (greatestWhole - 9) / 10
  let (s, left) := n.whole.foldl (fun ((s, left) : Nat × Nat) d =>
    if s < bound then (10 * s + d, left) else (s, left + 1)) (0, 0)
  let (s, taken) := n.part.foldl (fun ((s, taken) : Nat × Nat) d =>
    if s < bound then (10 * s + d, taken + 1) else (s, taken)) (s, 0)
  (s, n.power + Int.ofNat left - Int.ofNat taken)

/-- Moves powers of ten into a significand as long as it stays small. -/
def absorbPower : Nat → Nat → Nat × Nat
  | s, 0 => (s, 0)
  | s, e + 1 => if s < greatestWhole / 10 then absorbPower (10 * s) e else (s, e + 1)

/-- Cancels powers of ten that divide a significand. -/
def cancelPower : Nat → Nat → Nat × Nat
  | s, 0 => (s, 0)
  | s, e + 1 => if s % 10 == 0 then cancelPower (s / 10) e else (s, e + 1)

def Numeral.toDouble (n : Numeral) : Double :=
  let (s, e) := n.significand
  if s == 0 then Double.zero n.negative
  else if 0 ≤ e then
    let (s, e) := absorbPower s e.toNat
    if e == 0 then (Extended.mk s 0).toDouble n.negative
    else if 342 ≤ e then .infinite n.negative
    else if e ≤ 307 then ((Extended.ofNat s).mul (Extended.tenPower e)).toDouble n.negative
    else
      let near := ((Extended.ofNat s).mul (Extended.tenPower (e - 308))).toDouble n.negative
      timesGreat near
  else
    let (s, e) := cancelPower s (-e).toNat
    if e == 0 then (Extended.mk s 0).toDouble n.negative
    else if 342 ≤ e then Double.zero n.negative
    else if e ≤ 307 then ((Extended.ofNat s).div (Extended.tenPower e)).toDouble n.negative
    else
      let near := ((Extended.ofNat s).div (Extended.tenPower (e - 308))).toDouble n.negative
      overGreat near
where
  great : Nat × Nat := (Extended.constant 1 308).quotient
  timesGreat (d : Double) : Double :=
    let (a, b) := (Extended.ofDouble d).quotient
    if a == 0 then d else Double.ofQuotient n.negative (a * great.1) (b * great.2)
  overGreat (d : Double) : Double :=
    let (a, b) := (Extended.ofDouble d).quotient
    if a == 0 then d else Double.ofQuotient n.negative (a * great.2) (b * great.1)

end JarAtlas
