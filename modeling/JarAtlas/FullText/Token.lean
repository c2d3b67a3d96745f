import JarAtlas.Text.Ranges

/-!
How texts are divided into tokens for searching: into words, or into all stretches of three
characters. Both ignore letter case; words also ignore diacritics.
-/

namespace JarAtlas.FullText

abbrev Token := List Char

inductive Tokenizer where
  | words
  | trigrams
  deriving DecidableEq, Repr, Inhabited

def isTokenChar (c : Char) : Bool :=
  let n := c.toNat
  if n < 0x80 then c.isAlphanum
  else !Text.inRanges Text.separatorRanges n && !Text.droppedMarks.contains n

def isDroppedMark (c : Char) : Bool :=
  0x80 ≤ c.toNat && Text.droppedMarks.contains c.toNat

def foldPoint (n : Nat) : Nat :=
  Text.shiftBy ((Text.rowValue? Text.foldRuns n).or (Text.rowValue? Text.lowerRuns n)) n

def foldCase (c : Char) : Char :=
  let n := c.toNat
  if n < 0x80 then c.toLower else Char.ofNat (foldPoint n)

def foldLetter (c : Char) : Char :=
  let n := c.toNat
  if n < 0x80 then c.toLower
  else Char.ofNat ((Text.rowValue? Text.diacriticBases (foldPoint n)).getD (foldPoint n))

def wordTokens (cs : List Char) : List Token :=
  go [] [] cs
where
  go (word : Token) (done : List Token) : List Char → List Token
    | [] => (if word.isEmpty then done else word.reverse :: done).reverse
    | c :: cs =>
      if isTokenChar c then go (foldLetter c :: word) done cs
      else if word.isEmpty then go [] done cs
      else if isDroppedMark c then go word done cs
      else go [] (word.reverse :: done) cs

def windows : List Char → List Token
  | cs => go [] cs
where
  go (done : List Token) : List Char → List Token
    | a :: b :: c :: cs => go ([a, b, c] :: done) (b :: c :: cs)
    | _ => done.reverse

/-- The stretches of three characters of a text, folded; a null character ends the text. -/
def trigramTokens (cs : List Char) : List Token :=
  windows ((cs.takeWhile (·.toNat != 0)).map foldCase)

def Tokenizer.tokens : Tokenizer → List Char → List Token
  | words => wordTokens
  | trigrams => trigramTokens

end JarAtlas.FullText
