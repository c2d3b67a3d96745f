import JarAtlas.Text.Ranges

/-!
Letters, digits and letter case.
-/

namespace JarAtlas.Text

/-- Word characters: letters, numeric characters and the underscore. -/
def isWord (c : Char) : Bool :=
  let n := c.toNat
  if n < 0x80 then c.isAlphanum || c == '_' else inRanges wordRanges n

def isCapital (c : Char) : Bool :=
  let n := c.toNat
  if n < 0x80 then c.isUpper
  else inRanges capitalRanges n || ((rowValue? lowerRuns n).isSome && !inRanges titleRanges n)

/-- The lower-case form of one character, which is two characters for a dotted capital I. -/
def lowerChar (c : Char) : List Char :=
  let n := c.toNat
  if n < 0x80 then [c.toLower]
  else if n == 0x130 then ['i', Char.ofNat 0x307]
  else [Char.ofNat (shiftBy (rowValue? lowerRuns n) n)]

def upperChar (c : Char) : List Char :=
  let n := c.toNat
  if n < 0x80 then [c.toUpper]
  else match upperForms.lookup c with
    | some form => form.toList
    | none => [Char.ofNat (unshift 0 lowerRuns n)]

def isCased (c : Char) : Bool :=
  inRanges casedRanges c.toNat

/-- Whether a word runs through `c` as if it were not there. -/
def isPassedOver (c : Char) : Bool :=
  inRanges passedRanges c.toNat

/-- Whether a text goes on with a letter of the same word. -/
def goesOn (cs : List Char) : Bool :=
  (cs.dropWhile isPassedOver).head?.any isCased

/-- The text in lower case. A capital sigma that ends a word becomes a final sigma. -/
def lowerChars (cs : List Char) : List Char :=
  if cs.contains 'Σ' then go false cs [] else cs.flatMap lowerChar
where
  /-- `within` says whether a letter of the same word stands before the rest; `done` is the result
  so far, reversed. -/
  go (within : Bool) : List Char → List Char → List Char
    | [], done => done.reverse
    | c :: cs, done =>
      let low := if c == 'Σ' && within && !goesOn cs then ['ς'] else lowerChar c
      go (if isPassedOver c then within else isCased c) cs (low.reverseAux done)

def lower (s : String) : String :=
  String.ofList (lowerChars s.toList)

def upper (s : String) : String :=
  String.ofList (s.toList.flatMap upperChar)

def digitValue? (c : Char) : Option Nat :=
  let n := c.toNat
  if n < 0x80 then (if c.isDigit then some (n - 48) else none)
  else (digitZeros.find? fun z => z ≤ n && n < z + 10).map (n - ·)

end JarAtlas.Text
