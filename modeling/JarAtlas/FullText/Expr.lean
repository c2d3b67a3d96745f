import JarAtlas.FullText.Token

/-!
Full-text queries. A query asks for phrases, alone or near each other, in some or all columns, and
joins such groups with AND, OR and NOT.
-/

namespace JarAtlas.FullText

structure Term where
  token : Token
  isPrefix : Bool := false
  atStart : Bool := false
  deriving DecidableEq, Repr

abbrev Phrase := List Term

/-- Phrases that stand near each other in one of the columns. -/
structure Group where
  phrases : List Phrase
  /-- How many tokens may lie between them; below zero they never match together. -/
  distance : Int
  columns : Option (List Nat)
  deriving DecidableEq, Repr

inductive Expr where
  | group (g : Group)
  | nothing
  | both (l r : Expr)
  | either (l r : Expr)
  | without (l r : Expr)
  deriving DecidableEq, Repr

inductive QueryError where
  | unexpected (token : List Char)
  | unterminated
  | noColumn (name : List Char)
  | badDistance (text : List Char)
  | unknownDirective (name : List Char)
  | tooNested
  | tooLarge
  deriving DecidableEq, Repr

def QueryError.message : QueryError → String
  | unexpected token => "fts5: syntax error near \"" ++ String.ofList token ++ "\""
  | unterminated => "unterminated string"
  | noColumn name => "no such column: " ++ String.ofList name
  | badDistance text => "expected integer, got \"" ++ String.ofList text ++ "\""
  | unknownDirective name => "unknown special query: " ++ String.ofList name
  | tooNested => "fts5: parser stack overflow"
  | tooLarge => "fts5 expression tree is too large (maximum depth 256)"

namespace Expr

def phrases : Expr → List (Phrase × Option (List Nat))
  | group g => g.phrases.map fun p => (p, g.columns)
  | nothing => []
  | both l r => l.phrases ++ r.phrases
  | either l r => l.phrases ++ r.phrases
  | without l r => l.phrases ++ r.phrases

def size : Expr → Nat
  | group _ => 1
  | nothing => 1
  | both l r => l.size + r.size
  | either l r => l.size + r.size
  | without l r => l.size + r.size

/-- How deeply the operators of a query are nested, seen from a chain of ANDs, from a chain of ORs,
and from anywhere else: a chain counts as one operator. -/
def heights : Expr → Nat × Nat × Nat
  | group _ => (1, 1, 0)
  | nothing => (1, 1, 0)
  | both l r =>
    let h := max l.heights.1 r.heights.1
    (h, h + 1, h)
  | either l r =>
    let h := max l.heights.2.1 r.heights.2.1
    (h + 1, h, h)
  | without l r =>
    let h := max l.heights.2.2 r.heights.2.2 + 1
    (h + 1, h + 1, h)

def height (e : Expr) : Nat :=
  e.heights.2.2

def restrict (columns : List Nat) : Expr → Expr
  | group g =>
    match g.columns with
    | none => group { g with columns := some columns }
    | some old =>
      let common := old.filter columns.contains
      if common.isEmpty then nothing else group { g with columns := some common }
  | nothing => nothing
  | both l r => both (l.restrict columns) (r.restrict columns)
  | either l r => either (l.restrict columns) (r.restrict columns)
  | without l r => without (l.restrict columns) (r.restrict columns)

/-- Two groups side by side: both must match, and one that asks for nothing drops out. -/
def beside (l r : Expr) : Expr :=
  match l, r with
  | l, nothing => l
  | nothing, r => r
  | l, r => both l r

end Expr

end JarAtlas.FullText
