import JarAtlas.FullText.Expr

/-!
The lexemes of full-text queries.
-/

namespace JarAtlas.FullText

inductive Lexeme where
  | text (raw : List Char)
  | mark (c : Char)
  | andWord
  | orWord
  | notWord
  | stop
  | broken (error : QueryError)
  deriving DecidableEq, Repr

def Lexeme.raw : Lexeme → List Char
  | text raw => raw
  | mark c => [c]
  | andWord => "AND".toList
  | orWord => "OR".toList
  | notWord => "NOT".toList
  | stop => []
  | broken _ => []

def Lexeme.refuse : Lexeme → QueryError
  | broken error => error
  | other => .unexpected other.raw

def isQueryBlank (c : Char) : Bool :=
  c == ' ' || c == '\t' || c == '\n' || c == '\r'

def isBareChar (c : Char) : Bool :=
  c.isAlphanum || c == '_' || 0x80 ≤ c.toNat || c.toNat == 0x1a

def isMark (c : Char) : Bool :=
  "()\x7b\x7d:,+*-^".toList.contains c

def wordLexeme (word : List Char) : Lexeme :=
  if word == "AND".toList then .andWord
  else if word == "OR".toList then .orWord
  else if word == "NOT".toList then .notWord
  else .text word

/-- Where the division of a query stands; what was read of a lexeme is reversed. -/
inductive LexState where
  | between
  | inWord (done : List Char)
  | inQuotes (done : List Char)
  | afterQuote (done : List Char)

/-- The division after `c` where a lexeme may start. Gives the lexemes up to here, with the failure,
when none starts with this character. -/
def LexState.start (found : List Lexeme) (c : Char) :
    Except (List Lexeme) (LexState × List Lexeme) :=
  if isQueryBlank c then .ok (.between, found)
  else if isMark c then .ok (.between, .mark c :: found)
  else if c == '"' then .ok (.inQuotes [c], found)
  else if isBareChar c then .ok (.inWord [c], found)
  else .error (.broken (.unexpected [c]) :: found)

/-- The division after one more character; `found` holds the finished lexemes, reversed. -/
def LexState.next (state : LexState) (found : List Lexeme) (c : Char) :
    Except (List Lexeme) (LexState × List Lexeme) :=
  match state with
  | .inQuotes done =>
    if c == '"' then .ok (.afterQuote (c :: done), found) else .ok (.inQuotes (c :: done), found)
  | .afterQuote done =>
    if c == '"' then .ok (.inQuotes (c :: done), found) else start (.text done.reverse :: found) c
  | .inWord done =>
    if isBareChar c then .ok (.inWord (c :: done), found)
    else start (wordLexeme done.reverse :: found) c
  | .between => start found c

/-- The lexemes of a query, up to its end or to the first place where none can be read. -/
def lexemes (cs : List Char) : List Lexeme :=
  go .between [] (cs.takeWhile (·.toNat != 0))
where
  go (state : LexState) (found : List Lexeme) : List Char → List Lexeme
    | [] =>
      match state with
      | .between => (.stop :: found).reverse
      | .inWord done => (.stop :: wordLexeme done.reverse :: found).reverse
      | .inQuotes _ => (.broken .unterminated :: found).reverse
      | .afterQuote done => (.stop :: .text done.reverse :: found).reverse
    | c :: cs =>
      match state.next found c with
      | .ok (state, found) => go state found cs
      | .error found => found.reverse

def unquote (raw : List Char) : List Char :=
  match raw with
  | '"' :: rest => undouble rest.dropLast
  | raw => raw
where
  undouble : List Char → List Char
    | '"' :: '"' :: cs => '"' :: undouble cs
    | c :: cs => c :: undouble cs
    | [] => []

end JarAtlas.FullText
