import JarAtlas.FullText.Cursor
import JarAtlas.FullText.Parser
import Std.Data.HashMap

/-!
Searching the rows of a table. Matching rows come by rising rank: the negated sum, over the phrases,
of a weight for rare phrases times a saturating count in proportion to the row's length. Rows of
equal rank come in the order of the table.
-/

namespace JarAtlas.FullText

structure Entry (α : Type) where
  row : α
  doc : Doc

def docSize (doc : Doc) : Nat :=
  doc.foldl (fun n tokens => n + tokens.length) 0

def rarity (total hits : Nat) : Float :=
  let weight := Float.log ((Float.ofNat (total - hits) + 0.5) / (Float.ofNat hits + 0.5))
  if weight ≤ 0.0 then 1e-6 else weight

/-- What a phrase that occurs `count` times adds to the score of a row of this size. -/
def contribution (weight average : Float) (count size : Nat) : Float :=
  let n := Float.ofNat count
  weight * ((n * (1.2 + 1.0)) / (n + 1.2 * (1.0 - 0.75 + 0.75 * Float.ofNat size / average)))

/-- The rank of a row with these phrase counts and this size: its score, negated. -/
def rank (weights : List Float) (average : Float) (counts : List Nat) (size : Nat) : Float :=
  Float.neg ((weights.zip counts).foldl
    (fun score (weight, count) => score + contribution weight average count size) 0.0)

def Expr.ranked (e : Expr) (entries : List (Entry α)) : List α :=
  let total := entries.length
  let tokens := entries.foldl (fun n entry => n + docSize entry.doc) 0
  let average := Float.ofNat tokens / Float.ofNat total
  let weights := e.phrases.map fun (p, columns) =>
    rarity total (entries.countP fun entry => !(places p columns entry.doc).isEmpty)
  let tallies := Std.HashMap.ofList (e.tallies (entries.map (·.doc)))
  let hits := (entries.zipIdx 1).filterMap fun (entry, i) =>
    if e.accepts entry.doc then
      some (entry.row, rank weights average (tallies.getD i []) (docSize entry.doc))
    else none
  (hits.mergeSort fun a b => a.2 ≤ b.2).map (·.1)

def directive (rest : List Char) : List Char :=
  (rest.dropWhile (· == ' ')).takeWhile (· != ' ')

/-- The directives that are known; they find no rows. -/
def isKnownDirective (name : List Char) : Bool :=
  let low := name.map Char.toLower
  low == "reads".toList || low == "id".toList

/-- The rows that a query finds, by rising rank. The texts of a row are given by `texts`, one for
each column of the scheme. -/
def search (scheme : Scheme) (texts : α → List (List Char)) (query : List Char) (rows : List α) :
    Except QueryError (List α) :=
  match query with
  | '*' :: rest =>
    let name := directive rest
    if isKnownDirective name then .ok [] else .error (.unknownDirective name)
  | query => do
    let e ← scheme.parse query
    return e.ranked (rows.map fun row => ⟨row, (texts row).map scheme.tokenizer.tokens⟩)

end JarAtlas.FullText
