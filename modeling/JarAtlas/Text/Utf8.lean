/-!
Bytes and text. A text is encoded in UTF-8; bytes are decoded strictly, or with every longest
ill-formed piece replaced by a mark or left out.
-/

namespace JarAtlas

abbrev Bytes := List UInt8

namespace Utf8

def encode (cs : List Char) : Bytes :=
  cs.flatMap String.utf8EncodeChar

def isTail (b : UInt8) : Bool :=
  0x80 ≤ b && b ≤ 0xBF

/-- Whether `b` may follow the first byte `a` of a form of three or four bytes: overlong forms,
surrogates and code points beyond the last one are refused here. -/
def isSecond (a b : UInt8) : Bool :=
  if a == 0xE0 then 0xA0 ≤ b && b ≤ 0xBF
  else if a == 0xED then 0x80 ≤ b && b ≤ 0x9F
  else if a == 0xF0 then 0x90 ≤ b && b ≤ 0xBF
  else if a == 0xF4 then 0x80 ≤ b && b ≤ 0x8F
  else isTail b

def bits (b : UInt8) : Nat :=
  b.toNat % 64

/-- Reads one piece: a character, or nothing when the piece is the longest ill-formed beginning. -/
def piece (a : UInt8) (r : Bytes) : Option Char × Bytes :=
  if a < 0x80 then (some (Char.ofNat a.toNat), r)
  else if 0xC2 ≤ a && a ≤ 0xDF then
    match r with
    | b :: r₁ =>
      if isTail b then (some (Char.ofNat (a.toNat % 32 * 64 + bits b)), r₁) else (none, r)
    | [] => (none, [])
  else if 0xE0 ≤ a && a ≤ 0xEF then
    match r with
    | b :: r₁ =>
      if isSecond a b then
        match r₁ with
        | c :: r₂ =>
          if isTail c then
            (some (Char.ofNat (a.toNat % 16 * 4096 + bits b * 64 + bits c)), r₂)
          else (none, r₁)
        | [] => (none, [])
      else (none, r)
    | [] => (none, [])
  else if 0xF0 ≤ a && a ≤ 0xF4 then
    match r with
    | b :: r₁ =>
      if isSecond a b then
        match r₁ with
        | c :: r₂ =>
          if isTail c then
            match r₂ with
            | d :: r₃ =>
              if isTail d then
                (some (Char.ofNat
                  (a.toNat % 8 * 262144 + bits b * 4096 + bits c * 64 + bits d)), r₃)
              else (none, r₂)
            | [] => (none, [])
          else (none, r₁)
        | [] => (none, [])
      else (none, r)
    | [] => (none, [])
  else (none, r)

theorem length_piece_le (a : UInt8) (r : Bytes) : (piece a r).2.length ≤ r.length := by
  unfold piece
  repeat' split
  all_goals simp_all
  all_goals omega

def decodeWith (mark : List Char) (bs : Bytes) : List Char :=
  go bs []
where
  go (bs : Bytes) (done : List Char) : List Char :=
    match bs with
    | [] => done.reverse
    | a :: r =>
      have := length_piece_le a r
      go (piece a r).2 <|
        match (piece a r).1 with
        | some c => c :: done
        | none => mark.reverseAux done
  termination_by bs.length
  decreasing_by
    simp only [List.length_cons]
    omega

def decodeReplacing (bs : Bytes) : List Char :=
  decodeWith [Char.ofNat 0xFFFD] bs

def decodeIgnoring (bs : Bytes) : List Char :=
  decodeWith [] bs

def decode? (bs : Bytes) : Option (List Char) :=
  go bs []
where
  go (bs : Bytes) (done : List Char) : Option (List Char) :=
    match bs with
    | [] => some done.reverse
    | a :: r =>
      have := length_piece_le a r
      match (piece a r).1 with
      | some c => go (piece a r).2 (c :: done)
      | none => none
  termination_by bs.length
  decreasing_by
    simp only [List.length_cons]
    omega

def normalizeNewlines (cs : List Char) : List Char :=
  go cs []
where
  go : List Char → List Char → List Char
    | [], done => done.reverse
    | '\r' :: '\n' :: cs, done => go cs ('\n' :: done)
    | '\r' :: cs, done => go cs ('\n' :: done)
    | c :: cs, done => go cs (c :: done)

end Utf8

end JarAtlas
