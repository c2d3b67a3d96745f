import JarAtlas.FullText.Lexer

/-!
Reading full-text queries. Groups side by side bind strongest, then NOT, AND and OR. An error is
reported at the first lexeme that cannot continue the query.

The reader holds the parts of constructs that are not finished: lexemes, phrases, groups, operands.
It has room for a fixed number of them, so nested constructs are limited. The functions below take
the room that is left.
-/

namespace JarAtlas.FullText

/-- What a query is read for: the columns and how texts are divided into tokens. -/
structure Scheme where
  columns : List String
  tokenizer : Tokenizer
  deriving Repr

def refuseFront : List Lexeme → QueryError
  | l :: _ => l.refuse
  | [] => .unexpected []

def expectMark (c : Char) (ls : List Lexeme) : Except QueryError (List Lexeme) :=
  match ls with
  | .mark d :: rest => if d == c then .ok rest else .error (refuseFront ls)
  | ls => .error (refuseFront ls)

/-- An error that is reported only if a lexeme can be read after it. -/
def beforeNext (error : QueryError) (rest : List Lexeme) : QueryError :=
  match rest with
  | .broken earlier :: _ => earlier
  | _ => error

def capacity : Nat := 99

/-- Refuses a lexeme that would be the `n`-th part of its construct when there is no room for it. -/
def hold (n room : Nat) : Except QueryError Unit :=
  if n ≤ room then .ok () else .error .tooNested

/-- Like `hold` for a part that is left out, which shows only at the next lexeme. -/
def holdEmpty (n room : Nat) (rest : List Lexeme) : Except QueryError Unit :=
  if n ≤ room then .ok () else .error (beforeNext .tooNested rest)

/-- The number of the column `raw`; letter case does not matter. -/
def Scheme.column (scheme : Scheme) (raw : List Char) (rest : List Lexeme) :
    Except QueryError Nat :=
  let name := unquote raw
  let low (cs : List Char) := cs.map Char.toLower
  match scheme.columns.findIdx? fun column => low column.toList == low name with
  | some i => .ok i
  | none => .error (beforeNext (.noColumn name) rest)

def setLastPrefix (flag : Bool) (p : Phrase) : Phrase :=
  match p.reverse with
  | [] => []
  | last :: before => ({ last with isPrefix := flag } :: before).reverse

def Scheme.extendPhrase (scheme : Scheme) (p : Phrase) (raw : List Char) (star : Bool) : Phrase :=
  let tokens := scheme.tokenizer.tokens (unquote raw)
  setLastPrefix star (p ++ tokens.map fun token => { token := token })

def takeStar (n room : Nat) (ls : List Lexeme) : Except QueryError (Bool × List Lexeme) :=
  match ls with
  | .mark '*' :: rest => do
    hold n room
    return (true, rest)
  | ls => do
    holdEmpty n room ls
    return (false, ls)

def Scheme.morePhrase (scheme : Scheme) (room : Nat) : Nat → Phrase → List Lexeme →
    Except QueryError (Phrase × List Lexeme)
  | 0, p, ls => .ok (p, ls)
  | fuel + 1, p, ls =>
    match ls with
    | .mark '+' :: rest => do
      hold 2 room
      match rest with
      | .text raw :: rest =>
        hold 3 room
        let (star, rest) ← takeStar 4 room rest
        scheme.morePhrase room fuel (scheme.extendPhrase p raw star) rest
      | rest => throw (refuseFront rest)
    | ls => .ok (p, ls)

def Scheme.phrase (scheme : Scheme) (room : Nat) (ls : List Lexeme) :
    Except QueryError (Phrase × List Lexeme) :=
  match ls with
  | .text raw :: rest => do
    hold 1 room
    let (star, rest) ← takeStar 2 room rest
    scheme.morePhrase room rest.length (scheme.extendPhrase [] raw star) rest
  | ls => .error (refuseFront ls)

def Scheme.phraseList (scheme : Scheme) : Nat → Nat → List Phrase → List Lexeme →
    Except QueryError (List Phrase × List Lexeme)
  | 0, _, _, ls => .error (refuseFront ls)
  | fuel + 1, room, done, ls => do
    let (p, rest) ← scheme.phrase room ls
    match rest with
    | .text _ :: _ =>
      scheme.phraseList fuel (if done.isEmpty then room - 1 else room) (p :: done) rest
    | rest => return ((p :: done).reverse, rest)

def groupOf (phrases : List Phrase) (distance : Int) : Expr :=
  match phrases.filter (!·.isEmpty) with
  | [] => .nothing
  | phrases => .group ⟨phrases, distance, none⟩

def defaultDistance : Int := 10

/-- The distance that a text gives: a number of 32 bits, the highest of which is the sign. -/
def distance? (raw : List Char) : Option Int :=
  if raw.all Char.isDigit then
    some (Int.bmod (raw.foldl (fun n c => 10 * n + (c.toNat - 48)) 0 : Nat) 4294967296)
  else none

def Scheme.nearGroup (scheme : Scheme) (room : Nat) (name : List Char) (ls : List Lexeme) :
    Except QueryError (Expr × List Lexeme) := do
  let (phrases, rest) ← scheme.phraseList ls.length (room - 2) [] ls
  let (raw, rest) ← (match rest with
    | .mark ',' :: rest => do
      hold 4 room
      match rest with
      | .text raw :: rest =>
        hold 5 room
        return (some raw, rest)
      | rest => throw (refuseFront rest)
    | rest => do
      holdEmpty 4 room rest
      return (none, rest) : Except QueryError (Option (List Char) × List Lexeme))
  let rest ← expectMark ')' rest
  hold 5 room
  if name != "NEAR".toList then throw (beforeNext (.unexpected name) rest)
  match raw with
  | none => return (groupOf phrases defaultDistance, rest)
  | some raw =>
    match distance? raw with
    | some distance => return (groupOf phrases distance, rest)
    | none => throw (beforeNext (.badDistance raw) rest)

def anchored : Phrase → Phrase
  | [] => []
  | first :: rest => { first with atStart := true } :: rest

def Scheme.group (scheme : Scheme) (room : Nat) (ls : List Lexeme) :
    Except QueryError (Expr × List Lexeme) :=
  match ls with
  | .text raw :: .mark '(' :: rest => do
    hold 1 room
    hold 2 room
    scheme.nearGroup room raw rest
  | .mark '^' :: rest => do
    hold 1 room
    let (p, rest) ← scheme.phrase (room - 1) rest
    return (groupOf [anchored p] defaultDistance, rest)
  | ls => do
    let (p, rest) ← scheme.phrase room ls
    return (groupOf [p] defaultDistance, rest)

def Scheme.columnList (scheme : Scheme) (room : Nat) : List Nat → List Lexeme →
    Except QueryError (List Nat × List Lexeme)
  | done, .text raw :: rest => do
    hold (if done.isEmpty then 1 else 2) room
    let column ← scheme.column raw rest
    scheme.columnList room (done ++ [column]) rest
  | done, .mark '\x7d' :: rest =>
    if done.isEmpty then .error (.unexpected ['\x7d'])
    else do
      hold 2 room
      return (done, rest)
  | _, ls => .error (refuseFront ls)

def Scheme.complement (scheme : Scheme) (columns : List Nat) : List Nat :=
  (List.range scheme.columns.length).filter fun i => !columns.contains i

def expectColon (room : Nat) (ls : List Lexeme) : Except QueryError (List Lexeme) := do
  let rest ← expectMark ':' ls
  hold 2 room
  return rest

def Scheme.columnFilter (scheme : Scheme) (room : Nat) (ls : List Lexeme) :
    Except QueryError (Option (List Nat) × List Lexeme) :=
  match ls with
  | .text raw :: .mark ':' :: rest => do
    hold 1 room
    let column ← scheme.column raw []
    hold 2 room
    return (some [column], rest)
  | .mark '\x7b' :: rest => do
    hold 1 room
    let (columns, rest) ← scheme.columnList (room - 1) [] rest
    let rest ← expectColon room rest
    return (some columns, rest)
  | .mark '-' :: rest => do
    hold 1 room
    match rest with
    | .mark '\x7b' :: rest =>
      hold 2 room
      let (columns, rest) ← scheme.columnList (room - 2) [] rest
      let rest ← expectColon room rest
      return (some (scheme.complement columns), rest)
    | .text raw :: rest =>
      hold 2 room
      let column ← scheme.column raw rest
      let rest ← expectColon room rest
      return (some (scheme.complement [column]), rest)
    | rest => throw (refuseFront rest)
  | ls => .ok (none, ls)

def filtered (columns : Option (List Nat)) (e : Expr) : Expr :=
  match columns with
  | some columns => e.restrict columns
  | none => e

def startsGroup : List Lexeme → Bool
  | .text _ :: _ => true
  | .mark c :: _ => c == '\x7b' || c == '-' || c == '^'
  | _ => false

def Scheme.filteredGroup (scheme : Scheme) (room : Nat) (columns : Option (List Nat))
    (ls : List Lexeme) : Except QueryError (Expr × List Lexeme) := do
  let (g, rest) ← scheme.group (if columns.isSome then room - 2 else room) ls
  return (filtered columns g, rest)

def Scheme.moreGroups (scheme : Scheme) (room : Nat) : Nat → Expr → List Lexeme →
    Except QueryError (Expr × List Lexeme)
  | 0, e, ls => .ok (e, ls)
  | fuel + 1, e, ls =>
    if startsGroup ls then do
      let (columns, rest) ← scheme.columnFilter (room - 1) ls
      let (g, rest) ← scheme.filteredGroup (room - 1) columns rest
      scheme.moreGroups room fuel (e.beside g) rest
    else .ok (e, ls)

def maxHeight : Nat := 256

def checkHeight (e : Expr) (rest : List Lexeme) : Except QueryError Unit :=
  if e.height ≤ maxHeight then .ok () else .error (beforeNext .tooLarge rest)

abbrev OperandReader := Nat → List Lexeme → Except QueryError (Expr × List Lexeme)

/-- Reads operands joined by one operator, which binds to the left. -/
def chain (operator : Lexeme) (combine : Expr → Expr → Expr) (operand : OperandReader)
    (room : Nat) : Nat → Expr → List Lexeme → Except QueryError (Expr × List Lexeme)
  | 0, e, ls => .ok (e, ls)
  | fuel + 1, e, ls =>
    match ls with
    | l :: rest =>
      if l == operator then do
        hold 2 room
        let (e₂, rest) ← operand (room - 2) rest
        checkHeight (combine e e₂) rest
        chain operator combine operand room fuel (combine e e₂) rest
      else .ok (e, ls)
    | [] => .ok (e, ls)

def level (operator : Lexeme) (combine : Expr → Expr → Expr) (operand : OperandReader) :
    OperandReader := fun room ls => do
  let (e, rest) ← operand room ls
  chain operator combine operand room rest.length e rest

/-- Reads a query in brackets after the opening one, which is the part `opening` of its construct. -/
def bracketed (inner : OperandReader) (opening room : Nat) (ls : List Lexeme) :
    Except QueryError (Expr × List Lexeme) := do
  hold opening room
  let (e, rest) ← inner (room - opening) ls
  let rest ← expectMark ')' rest
  hold (opening + 2) room
  return (e, rest)

/-- Reads groups side by side, or a query in brackets, which `inner` reads. -/
def Scheme.operand (scheme : Scheme) (inner : OperandReader) : OperandReader := fun room ls =>
  match ls with
  | .mark '(' :: rest => bracketed inner 1 room rest
  | ls => do
    let (columns, rest) ← scheme.columnFilter room ls
    match columns, rest with
    | some columns, .mark '(' :: rest => do
      let (e, rest) ← bracketed inner 3 room rest
      return (e.restrict columns, rest)
    | columns, rest => do
      let (g, rest) ← scheme.filteredGroup room columns rest
      scheme.moreGroups room rest.length g rest

/-- Reads a query at the front of the lexemes. Each bracket uses one unit of `fuel`. -/
def Scheme.expr (scheme : Scheme) : Nat → OperandReader
  | 0 => fun _ ls => .error (refuseFront ls)
  | fuel + 1 =>
    level .orWord .either
      (level .andWord .both (level .notWord .without (scheme.operand (scheme.expr fuel))))

def Scheme.parse (scheme : Scheme) (query : List Char) : Except QueryError Expr := do
  let ls := lexemes query
  let (e, rest) ← scheme.expr (ls.length + 1) capacity ls
  match rest with
  | .stop :: _ => return e
  | rest => throw (refuseFront rest)

end JarAtlas.FullText
