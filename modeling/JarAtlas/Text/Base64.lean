import JarAtlas.Text.Utf8

/-!
Bytes as base64 text: three bytes are four letters, and padding fills the last group.
-/

namespace JarAtlas.Base64

def letter (n : Nat) : Char :=
  if n < 26 then Char.ofNat (65 + n)
  else if n < 52 then Char.ofNat (71 + n)
  else if n < 62 then Char.ofNat (n - 4)
  else if n == 62 then '+'
  else '/'

def value? (c : Char) : Option Nat :=
  let n := c.toNat
  if 65 ≤ n && n ≤ 90 then some (n - 65)
  else if 97 ≤ n && n ≤ 122 then some (n - 71)
  else if 48 ≤ n && n ≤ 57 then some (n + 4)
  else if c == '+' then some 62
  else if c == '/' then some 63
  else none

def group (a b c : UInt8) : List Char :=
  let n := a.toNat * 65536 + b.toNat * 256 + c.toNat
  [letter (n / 262144), letter (n / 4096 % 64), letter (n / 64 % 64), letter (n % 64)]

def encodeFrom (done : List Char) : Bytes → List Char
  | [] => done.reverse
  | [a] => (group a 0 0).take 2 |>.reverseAux done |> ('=' :: '=' :: ·) |>.reverse
  | [a, b] => (group a b 0).take 3 |>.reverseAux done |> ('=' :: ·) |>.reverse
  | a :: b :: c :: rest => encodeFrom ((group a b c).reverseAux done) rest

def encode (bs : Bytes) : List Char :=
  encodeFrom [] bs

def decodeFrom (done : Bytes) : List Char → Option Bytes
  | [] => some done.reverse
  | [a, b, '=', '='] => do
    let x ← value? a
    let y ← value? b
    return (UInt8.ofNat (x * 4 + y / 16) :: done).reverse
  | [a, b, c, '='] => do
    let x ← value? a
    let y ← value? b
    let z ← value? c
    return (UInt8.ofNat (y % 16 * 16 + z / 4) :: UInt8.ofNat (x * 4 + y / 16) :: done).reverse
  | a :: b :: c :: d :: rest =>
    match value? a, value? b, value? c, value? d with
    | some x, some y, some z, some w =>
      decodeFrom (UInt8.ofNat (z % 4 * 64 + w) :: UInt8.ofNat (y % 16 * 16 + z / 4) ::
        UInt8.ofNat (x * 4 + y / 16) :: done) rest
    | _, _, _, _ => none
  | _ => none

def decode? (cs : List Char) : Option Bytes :=
  decodeFrom [] cs

end JarAtlas.Base64
