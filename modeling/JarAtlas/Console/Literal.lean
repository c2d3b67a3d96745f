import JarAtlas.Json.Parser

/-!
Literal values as they are written for the handler of a tag: numbers, quoted texts, a few words, and
groups of values in round or curly brackets. Only whether a text is such a value matters here.
-/

namespace JarAtlas.Console

namespace Literal

inductive Token where
  | number (imaginary : Bool)
  | quoted (bytes : Bool)
  | word (name : List Char)
  | dots
  | mark (c : Char)
  deriving DecidableEq, Repr

def isWordPart (c : Char) : Bool :=
  Text.isWord c

/-- Digits of a kind, where single underscores may stand between them, and the rest. -/
def digitRun (isDigit : Char → Bool) (cs : List Char) : List Char × List Char :=
  go [] cs
where
  go (done : List Char) : List Char → List Char × List Char
    | '_' :: c :: cs =>
      if isDigit c && !done.isEmpty then go (c :: done) cs else (done.reverse, '_' :: c :: cs)
    | c :: cs => if isDigit c then go (c :: done) cs else (done.reverse, c :: cs)
    | [] => (done.reverse, [])

def afterExponent? : List Char → Option (List Char)
  | c :: cs =>
    if c == 'e' || c == 'E' then
      let cs := match cs with
        | '+' :: r => r
        | '-' :: r => r
        | r => r
      match digitRun Char.isDigit cs with
      | ([], _) => none
      | (_, rest) => some rest
    else none
  | [] => none

/-- Whether digits are a whole number: not too many, and without needless zeros in front. -/
def isWhole (ds : List Char) : Bool :=
  ds.length ≤ maxDigits && (ds.head? != some '0' || ds.all (· == '0'))

def decimal? (cs : List Char) : Option (Token × List Char) :=
  let (whole, rest) := digitRun Char.isDigit cs
  let (point, rest) : Bool × List Char := match rest with
    | '.' :: r => (true, (digitRun Char.isDigit r).2)
    | r => (false, r)
  let (power, rest) : Bool × List Char := match afterExponent? rest with
    | some r => (true, r)
    | none => (false, rest)
  match rest with
  | 'j' :: r => some (.number true, r)
  | 'J' :: r => some (.number true, r)
  | r => if point || power || isWhole whole then some (.number false, r) else none

def inBase? (isDigit : Char → Bool) (cs : List Char) : Option (Token × List Char) :=
  let cs := match cs with
    | '_' :: r => r
    | r => r
  match digitRun isDigit cs with
  | ([], _) => none
  | (_, rest) => some (.number false, rest)

def number? (cs : List Char) : Option (Token × List Char) := do
  let isHex (c : Char) : Bool := (Json.hexValue? c).isSome
  let (t, rest) ← match cs with
    | '0' :: 'x' :: r => inBase? isHex r
    | '0' :: 'X' :: r => inBase? isHex r
    | '0' :: 'o' :: r => inBase? (fun c => '0' ≤ c && c ≤ '7') r
    | '0' :: 'O' :: r => inBase? (fun c => '0' ≤ c && c ≤ '7') r
    | '0' :: 'b' :: r => inBase? (fun c => c == '0' || c == '1') r
    | '0' :: 'B' :: r => inBase? (fun c => c == '0' || c == '1') r
    | cs => decimal? cs
  if rest.head?.any isWordPart then none else some (t, rest)

def escapeSize (bytes : Bool) : Char → Nat
  | 'x' => 2
  | 'u' => if bytes then 0 else 4
  | 'U' => if bytes then 0 else 8
  | _ => 0

def isEscape (bytes : Bool) : List Char → Bool
  | [] => false
  | c :: cs =>
    let ds := (cs.take (escapeSize bytes c)).filterMap Json.hexValue?
    ds.length == escapeSize bytes c && ds.foldl (fun n d => 16 * n + d) 0 < 0x110000

/-- The rest after a quoted text; `quote` ends it. A text of one quote sign ends in its line. -/
def afterQuoted? (raw bytes : Bool) (quote : List Char) : Nat → List Char → Option (List Char)
  | _, [] => none
  | skip + 1, _ :: cs => afterQuoted? raw bytes quote skip cs
  | 0, c :: cs =>
    if quote.isPrefixOf (c :: cs) then some (cs.drop (quote.length - 1))
    else if c == '\\' then
      if raw || isEscape bytes cs then afterQuoted? raw bytes quote 1 cs else none
    else if (c == '\n' || c == '\r') && quote.length == 1 then none
    else if bytes && 128 ≤ c.toNat then none
    else afterQuoted? raw bytes quote 0 cs

def quoted? (letters : List Char) (cs : List Char) : Option (Token × List Char) := do
  let kind := String.ofList (letters.map Char.toLower)
  let raw := ["r", "br", "rb"].contains kind
  let bytes := ["b", "br", "rb"].contains kind
  if !raw && !bytes && kind != "" && kind != "u" then none
  let rest ← match cs with
    | '\'' :: '\'' :: '\'' :: r => afterQuoted? raw bytes ['\'', '\'', '\''] 0 r
    | '"' :: '"' :: '"' :: r => afterQuoted? raw bytes ['"', '"', '"'] 0 r
    | c :: r => afterQuoted? raw bytes [c] 0 r
    | [] => none
  some (.quoted bytes, rest)

def startsQuoted (cs : List Char) : Bool :=
  cs.head?.any fun c => c == '\'' || c == '"'

def token? (cs : List Char) : Option (Token × List Char) :=
  match cs with
  | [] => none
  | '.' :: '.' :: '.' :: r => some (.dots, r)
  | c :: r =>
    if c.isDigit || (c == '.' && r.head?.any Char.isDigit) then number? cs
    else if startsQuoted cs then quoted? [] cs
    else if isWordPart c then
      let (name, rest) := cs.span isWordPart
      if startsQuoted rest then quoted? name rest else some (.word name, rest)
    else if "()\x7b\x7d,:+-".toList.contains c then some (.mark c, r)
    else none

def maxOpen : Nat := 200

def levelAfter (level : Nat) : Token → Nat
  | .mark c =>
    if c == '(' || c == '\x7b' then level + 1
    else if c == ')' || c == '\x7d' then level - 1
    else level
  | _ => level

def isGap (c : Char) : Bool :=
  c == ' ' || c == '\t' || c == '\x0c'

/-- Whether only blanks, line ends and comments are left; `comment` says that one goes on. -/
def isOver (comment : Bool) : List Char → Bool
  | [] => true
  | c :: cs =>
    if c == '\n' || c == '\r' then isOver false cs
    else if comment || isGap c then isOver comment cs
    else c == '#' && isOver true cs

/-- The tokens of a text. Outside brackets a line end ends the value. -/
def tokens? : Nat → Nat → List Char → Option (List Token)
  | 0, _, _ => none
  | _, _, [] => some []
  | fuel + 1, level, c :: cs =>
    if isGap c then tokens? fuel level cs
    else if c == '\n' || c == '\r' then
      if level == 0 then (if isOver false cs then some [] else none) else tokens? fuel level cs
    else if c == '#' then tokens? fuel level (cs.dropWhile fun d => d != '\n' && d != '\r')
    else do
      let (t, rest) ← token? (c :: cs)
      if maxOpen < levelAfter level t then none
      else return t :: (← tokens? fuel (levelAfter level t) rest)

inductive Shape where
  | real
  | imaginary
  | signed
  | key
  | changing
  deriving DecidableEq, Repr

def Shape.together (shapes : List Shape) : Shape :=
  if shapes.contains .changing then .changing else .key

def afterTexts? (bytes : Bool) : List Token → Option (List Token)
  | .quoted b :: ts => if b == bytes then afterTexts? bytes ts else none
  | ts => some ts

mutual

/-- A value and the rest: a number with or without a sign, a sum of a real and an imaginary number,
or a value of another kind. -/
def value? : Nat → List Token → Option (Shape × List Token)
  | 0, _ => none
  | fuel + 1, ts => do
    let (left, rest) ← signed? fuel ts
    match rest with
    | .mark c :: more =>
      if c == '+' || c == '-' then
        let (right, rest) ← atom? fuel more
        if (left == .real || left == .signed) && right == .imaginary then some (.key, rest)
        else none
      else some (left, rest)
    | rest => some (left, rest)

def signed? : Nat → List Token → Option (Shape × List Token)
  | 0, _ => none
  | fuel + 1, ts =>
    match ts with
    | .mark '+' :: more => sign fuel more
    | .mark '-' :: more => sign fuel more
    | ts => atom? fuel ts

def sign : Nat → List Token → Option (Shape × List Token)
  | 0, _ => none
  | fuel + 1, ts => do
    let (shape, rest) ← atom? fuel ts
    match shape with
    | .real => some (.signed, rest)
    | .imaginary => some (.key, rest)
    | _ => none

def atom? : Nat → List Token → Option (Shape × List Token)
  | 0, _ => none
  | fuel + 1, ts =>
    match ts with
    | .number imaginary :: rest => some (if imaginary then .imaginary else .real, rest)
    | .quoted bytes :: rest => (afterTexts? bytes rest).map fun rest => (.key, rest)
    | .dots :: rest => some (.key, rest)
    | .word name :: rest =>
      if ["True", "False", "None"].contains (String.ofList name) then some (.key, rest)
      else
        match rest with
        | .mark '(' :: .mark ')' :: rest =>
          if String.ofList name == "set" then some (.changing, rest) else none
        | _ => none
    | .mark '(' :: .mark ')' :: rest => some (.key, rest)
    | .mark '(' :: rest => do
      let (shape, rest) ← items? fuel rest
      match rest with
      | .mark ')' :: rest => some (shape, rest)
      | _ => none
    | .mark '\x7b' :: .mark '\x7d' :: rest => some (.changing, rest)
    | .mark '\x7b' :: rest => do
      let (shape, rest) ← value? fuel rest
      if shape == .changing then none
      match rest with
      | .mark ':' :: rest => do
        let (_, rest) ← value? fuel rest
        let rest ← members? fuel true rest
        some (.changing, rest)
      | rest => do
        let rest ← members? fuel false rest
        some (.changing, rest)
    | _ => none

def items? : Nat → List Token → Option (Shape × List Token)
  | 0, _ => none
  | fuel + 1, ts => do
    let (first, rest) ← value? fuel ts
    match rest with
    | .mark ',' :: rest => do
      match rest with
      | [] => some (.together [first], [])
      | .mark ')' :: rest => some (.together [first], .mark ')' :: rest)
      | rest => do
        let (others, rest) ← items? fuel rest
        some (.together [first, others], rest)
    | rest => some (first, rest)

/-- The rest after the further members of a set, or of a table, and its closing bracket. -/
def members? : Nat → Bool → List Token → Option (List Token)
  | 0, _, _ => none
  | fuel + 1, keyed, ts =>
    match ts with
    | .mark '\x7d' :: rest => some rest
    | .mark ',' :: .mark '\x7d' :: rest => some rest
    | .mark ',' :: rest => do
      let (shape, rest) ← value? fuel rest
      if shape == .changing then none
      if keyed then
        match rest with
        | .mark ':' :: rest => do
          let (_, rest) ← value? fuel rest
          members? fuel keyed rest
        | _ => none
      else members? fuel keyed rest
    | _ => none

end

end Literal

def isLiteral (cs : List Char) : Bool :=
  if cs.contains (Char.ofNat 0) then false
  else
    match Literal.tokens? (cs.length + 1) 0 cs with
    | none => false
    | some ts =>
      match Literal.items? (4 * ts.length + 8) ts with
      | some (_, []) => true
      | _ => false

end JarAtlas.Console
