import JarAtlas.Text.Blank
import JarAtlas.Text.Ranges

/-!
Lines on a console: how many columns a text takes, and how it is divided into lines of a width.
-/

namespace JarAtlas.Console

def charWidth (c : Char) : Nat :=
  let n := c.toNat
  if n < 127 then (if n < 32 then 0 else 1)
  else if n < 160 then 0
  else if Text.inRanges Text.zeroWidthRanges n then 0
  else if Text.inRanges Text.wideRanges n then 2
  else 1

def width (cs : List Char) : Nat :=
  cs.foldl (fun n c => n + charWidth c) 0

/-- The number of columns that the widest line of a text asks for, where a tab takes none. -/
def measure (cs : List Char) : Nat :=
  (Text.lines cs).foldl (fun n line => max n (width line)) 0

def blanks (n : Nat) : List Char :=
  List.replicate n ' '

def expandTabs (cs : List Char) : List Char :=
  go 0 [] cs
where
  go (column : Nat) (done : List Char) : List Char → List Char
    | [] => done.reverse
    | c :: cs =>
      if c == '\t' then
        let count := 8 - column % 8
        go (column + count) (blanks count ++ done) cs
      else go (column + charWidth c) (c :: done) cs

def textLines (cs : List Char) : List (List Char) :=
  (Text.splitAt '\n' cs).map expandTabs

/-- The words of a line, each with the blanks around it: those before the first word belong to it,
all others to the word before them. A line of blanks has no words. -/
def spacedWords (cs : List Char) : List (List Char) :=
  go false [] [] cs
where
  /-- `started` says whether the current word has begun; `word` and `done` are reversed. -/
  go (started : Bool) (word : List Char) (done : List (List Char)) : List Char → List (List Char)
    | [] => if started then (word.reverse :: done).reverse else done.reverse
    | c :: cs =>
      if Text.isBlank c then go started (c :: word) done cs
      else if started && word.head?.any Text.isBlank then go true [c] (word.reverse :: done) cs
      else go true (c :: word) done cs

def trimEnd (cs : List Char) : List Char :=
  (cs.reverse.dropWhile Text.isBlank).reverse

/-- A word cut into pieces of at most `size` columns. The first piece is empty if not even one
character fits. -/
def chop (size : Nat) (cs : List Char) : List (List Char) :=
  go [] 0 [] cs
where
  go (piece : List Char) (used : Nat) (done : List (List Char)) : List Char → List (List Char)
    | [] => (piece.reverse :: done).reverse
    | c :: cs =>
      if used + charWidth c > size then go [c] (charWidth c) (piece.reverse :: done) cs
      else go (c :: piece) (used + charWidth c) done cs

inductive Overflow where
  | fold
  | ellipsis
  deriving DecidableEq, Repr

def padded (size : Nat) (cs : List Char) : List Char :=
  cs ++ blanks (size - width cs)

def runningWidths (cs : List Char) : Array Nat :=
  cs.foldl (fun ws c => ws.push ((ws.back?).getD 0 + charWidth c)) #[]

/-- The first characters of a text, as far as they fill `size` columns, for a text that takes more.
The end is sought by halving, which decides about characters without width there. Where a wide
character does not fit, a blank takes its first column. -/
def firstColumns (size : Nat) (cs : List Char) : List Char :=
  if size == 0 then [] else seek (runningWidths cs) cs.length 0 cs.length
where
  /-- Halves the range from `low` to `high`; `steps` bounds the number of halvings. -/
  seek (widths : Array Nat) : Nat → Nat → Nat → List Char
    | 0, low, _ => cs.take low
    | steps + 1, low, high =>
      let middle := (low + high) / 2
      let used := (widths[middle]?).getD 0
      if used == size + 1 && (cs[middle]?).any (fun d => charWidth d == 2) then
        cs.take middle ++ [' ']
      else if used == size then cs.take (middle + 1)
      else if size < used then seek widths steps low middle
      else seek widths steps middle high

def crop (o : Overflow) (size : Nat) (cs : List Char) : List Char :=
  if width cs ≤ size then cs
  else
    match o with
    | .fold => firstColumns size cs
    | .ellipsis => firstColumns (size - 1) cs ++ ['…']

/-- The text without those blanks at its end that are more than `size` characters from its start. -/
def trimExcess (size : Nat) (cs : List Char) : List Char :=
  let trailing := cs.length - (trimEnd cs).length
  cs.take (cs.length - min trailing (cs.length - size))

/-- Lines that are being filled with words: the current line and its width, and the finished lines;
all are reversed. -/
structure Filling where
  line : List Char := []
  used : Nat := 0
  done : List (List Char) := []

namespace Filling

def start (f : Filling) (cs : List Char) : Filling :=
  { line := cs.reverse, used := width cs
    done := if f.line.isEmpty then f.done else f.line.reverse :: f.done }

/-- A word is put into the line, or into the next one if it does not fit. A word that fits in no
line is divided where words may be. -/
def add (o : Overflow) (size : Nat) (f : Filling) (word : List Char) : Filling :=
  let need := width (trimEnd word)
  if f.used + need ≤ size then
    { f with line := word.reverseAux f.line, used := f.used + width word }
  else if need ≤ size || o == .ellipsis then f.start word
  else
    match chop size word with
    | [] => f
    | [] :: rest =>
      if f.line.isEmpty then rest.foldl start f
      else rest.foldl start { line := [], used := 0, done := [] :: f.line.reverse :: f.done }
    | rest => rest.foldl start f

def lines (f : Filling) : List (List Char) :=
  (f.line.reverse :: f.done).reverse

end Filling

def divide (o : Overflow) (size : Nat) (cs : List Char) : List (List Char) :=
  match spacedWords cs with
  | [] => [cs]
  | words => (words.foldl (Filling.add o size) {}).lines

/-- A text as lines for `size` columns. Only what may be divided is. -/
def fitted (o : Overflow) (undivided : Bool) (size : Nat) (cs : List Char) : List (List Char) :=
  ((textLines cs).flatMap fun line => if undivided then [line] else divide o size line).map
    (trimExcess size)

def wrapText (o : Overflow) (size : Nat) (cs : List Char) : List (List Char) :=
  (fitted o false size cs).map (crop o size)

def centred (size : Nat) (cs : List Char) : List Char :=
  let left := (size - width cs) / 2
  blanks left ++ cs ++ blanks (size - width cs - left)

def joinedLines (lines : List (List Char)) : String :=
  String.ofList (lines.flatMap fun line => line ++ ['\n'])

end JarAtlas.Console
