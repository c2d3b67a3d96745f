/-!
White space: which characters are blank, trimming, and splitting into words and lines.
-/

namespace JarAtlas.Text

/-- White space in the Unicode sense, the four information separators included. -/
def isBlank (c : Char) : Bool :=
  let n := c.toNat
  if n < 0x80 then (9 ≤ n && n ≤ 13) || (28 ≤ n && n ≤ 32)
  else n == 0x85 || n == 0xa0 || n == 0x1680 || (0x2000 ≤ n && n ≤ 0x200a) || n == 0x2028 ||
    n == 0x2029 || n == 0x202f || n == 0x205f || n == 0x3000

def trimBy (p : Char → Bool) (cs : List Char) : List Char :=
  ((cs.dropWhile p).reverse.dropWhile p).reverse

def trim (cs : List Char) : List Char :=
  trimBy isBlank cs

def strip (s : String) : String :=
  String.ofList (trim s.toList)

/-- The maximal runs of characters outside `p`, from left to right. -/
def runsOutside (p : Char → Bool) (cs : List Char) : List (List Char) :=
  go cs [] []
where
  go : List Char → List Char → List (List Char) → List (List Char)
    | [], [], runs => runs.reverse
    | [], run, runs => (run.reverse :: runs).reverse
    | c :: cs, run, runs =>
      if p c then
        match run with
        | [] => go cs [] runs
        | run => go cs [] (run.reverse :: runs)
      else go cs (c :: run) runs

def words (cs : List Char) : List (List Char) :=
  runsOutside isBlank cs

/-- The characters that end a line: line feed, carriage return, vertical tab, form feed, the file,
group and record separators, next line, and the line and paragraph separators. -/
def endsLine (c : Char) : Bool :=
  let n := c.toNat
  (10 ≤ n && n ≤ 13) || (0x1c ≤ n && n ≤ 0x1e) || n == 0x85 || n == 0x2028 || n == 0x2029

/-- The lines of a text without their ends. A carriage return and a line feed after it end one line,
and an end at the very end of the text starts no further line. -/
def lines (cs : List Char) : List (List Char) :=
  go cs [] []
where
  go : List Char → List Char → List (List Char) → List (List Char)
    | [], [], done => done.reverse
    | [], line, done => (line.reverse :: done).reverse
    | '\r' :: '\n' :: cs, line, done => go cs [] (line.reverse :: done)
    | c :: cs, line, done =>
      if endsLine c then go cs [] (line.reverse :: done) else go cs (c :: line) done

end JarAtlas.Text
