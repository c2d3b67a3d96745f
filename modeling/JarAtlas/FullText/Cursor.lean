import JarAtlas.FullText.Matching

/-!
How often the phrases of a query occur in the rows that it finds.

A search goes through the rows in order. Each group of the query has a cursor, which stops at every
row that has all the terms of the group and notes there where its phrases stand. A phrase that does
not stand in the row ends the noting, and what was noted at an earlier row for the phrases after it
remains. What counts for a row is what the cursors that stop at it have noted, also those of groups
that do not match it. So the counts of a row depend on the rows before it.
-/

namespace JarAtlas.FullText

/-- Whether a term occurs in a row. Only a term with a star looks at the columns that count. -/
def Term.occurs (t : Term) (columns : Option (List Nat)) (doc : Doc) : Bool :=
  let columns := if t.isPrefix then columns else none
  !(places [{ t with atStart := false }] columns doc).isEmpty

def Group.stopsAt (g : Group) (doc : Doc) : Bool :=
  g.phrases.all fun p => p.all fun t => t.occurs g.columns doc

/-- Notes the places of the phrases up to the first one that does not stand in the row; tells
whether all do. -/
def Group.noteEach (g : Group) (doc : Doc) :
    List Phrase → List (List Nat) → Bool × List (List Nat)
  | p :: ps, _ :: noted =>
    match places p g.columns doc with
    | [] => (false, [] :: noted)
    | found =>
      let (fits, rest) := g.noteEach doc ps noted
      (fits, found :: rest)
  | _, _ => (true, [])

/-- Notes the places of the phrases in a row; tells whether the group matches it. -/
def Group.note (g : Group) (doc : Doc) (noted : List (List Nat)) : Bool × List (List Nat) :=
  let (fits, found) := g.noteEach doc g.phrases noted
  if fits && g.phrases.length != 1 then
    let kept := g.nearby found
    (kept.all (!·.isEmpty), kept)
  else (fits, found)

/-- The cursor of a group: the rows at which it stops from the current one on, the places noted for
each phrase, and whether the group matches the current row. -/
structure Leaf where
  group : Group
  ahead : List (Nat × Doc)
  noted : List (List Nat)
  fits : Bool

def Leaf.look (l : Leaf) : Leaf :=
  match l.ahead with
  | [] => l
  | (_, doc) :: _ =>
    let (fits, noted) := l.group.note doc l.noted
    { l with noted := noted, fits := fits }

/-- Goes on to the next row, or to the first after the current one that is not below `least`. -/
def Leaf.next (l : Leaf) (least : Nat) : Leaf :=
  Leaf.look { l with ahead := (l.ahead.drop 1).dropWhile (·.1 < least) }

inductive Cursor where
  | leaf (l : Leaf)
  | all (parts : List Cursor)
  | any (l r : Cursor)
  | without (l r : Cursor)

namespace Cursor

def row? : Cursor → Option Nat
  | leaf l => l.ahead.head?.map (·.1)
  | all [] => none
  | all (c :: _) => c.row?
  | any l r =>
    match l.row?, r.row? with
    | some m, some n => some (min m n)
    | some m, none => some m
    | none, n => n
  | without l _ => l.row?

mutual

def fits : Cursor → Bool
  | leaf l => l.fits
  | all parts => allFit parts
  | any l r =>
    match l.row?, r.row? with
    | some m, some n =>
      if m < n then l.fits else if n < m then r.fits else l.fits || r.fits
    | some _, none => l.fits
    | none, _ => r.fits
  | without l _ => l.fits

def allFit : List Cursor → Bool
  | [] => true
  | c :: cs => c.fits && allFit cs

end

mutual

def stop : Cursor → Cursor
  | leaf l => leaf { l with ahead := [] }
  | all parts => all (stopEach parts)
  | any l r => any l.stop r.stop
  | without l r => without l.stop r.stop

def stopEach : List Cursor → List Cursor
  | [] => []
  | c :: cs => c.stop :: stopEach cs

end

mutual

def forget : Cursor → Cursor
  | leaf l => leaf { l with noted := l.noted.map fun _ => [] }
  | all parts => all (forgetEach parts)
  | any l r => any l.forget r.forget
  | without l r => without l.forget r.forget

def forgetEach : List Cursor → List Cursor
  | [] => []
  | c :: cs => c.forget :: forgetEach cs

end

mutual

/-- How often each phrase occurs in the row, by the notes of the cursors that stand at it. -/
def tally (row : Nat) : Cursor → List Nat
  | leaf l =>
    if l.ahead.head?.map (·.1) == some row then l.noted.map List.length
    else l.noted.map fun _ => 0
  | all parts => tallyEach row parts
  | any l r => l.tally row ++ r.tally row
  | without l r => l.tally row ++ r.tally row

def tallyEach (row : Nat) : List Cursor → List Nat
  | [] => []
  | c :: cs => c.tally row ++ tallyEach row cs

end

/-- Brings the parts that lie below the foremost row up to it, one after another. Gives nothing when
one has come to its end; otherwise the parts, the foremost row and whether all stand at `front`. -/
def alignPass (move : Nat → Cursor → Cursor) :
    Nat → List Cursor → Option (List Cursor × Nat × Bool)
  | front, [] => some ([], front, true)
  | front, c :: cs => do
    let c := if c.row?.any (· < front) then move front c else c
    let row ← c.row?
    let (cs, foremost, same) ← alignPass move row cs
    return (c :: cs, foremost, same && row == front)

/-- Moves the parts to the next row that they share; without one all come to their end. -/
def meet (move : Nat → Cursor → Cursor) : Nat → Nat → List Cursor → List Cursor
  | 0, _, parts => stopEach parts
  | fuel + 1, front, parts =>
    match alignPass move front parts with
    | none => stopEach parts
    | some (parts, foremost, same) => if same then parts else meet move fuel foremost parts

/-- The parts brought together at a row. At a row that they do not match the notes are struck out,
unless the parts are the whole query. -/
def conjunction (move : Nat → Cursor → Cursor) (rows : Nat) (whole : Bool) (parts : List Cursor) :
    Cursor :=
  match (parts.head?.bind row?) with
  | none => all (stopEach parts)
  | some front =>
    let met := all (meet move (rows + 2) front parts)
    if met.row?.isSome && !met.fits && !whole then met.forget else met

/-- Moves the left part past the rows that the right part matches. -/
def exclude (moveLeft : Cursor → Cursor) (moveRight : Nat → Cursor → Cursor) :
    Nat → Cursor → Cursor → Cursor
  | 0, l, r => without l.stop r.stop
  | fuel + 1, l, r =>
    match l.row? with
    | none => without l r.forget
    | some row =>
      let r := if r.row?.any (· < row) then moveRight row r else r
      if r.row? == some row && r.fits then exclude moveLeft moveRight fuel (moveLeft l) r
      else without l r

/-- Goes on to the next row, or to the first after the current one that is not below `least`. Each
level of the query uses one unit of `fuel`; `rows` is the number of rows. -/
def advance (rows : Nat) : Nat → Bool → Nat → Cursor → Cursor
  | 0, _, _, c => c.stop
  | fuel + 1, whole, least, c =>
    let move := advance rows fuel false
    match c with
    | leaf l => leaf (l.next least)
    | all [] => all []
    | all (c :: cs) => conjunction move rows whole (move least c :: cs)
    | any l r =>
      let here := (any l r).row?
      let follow (c : Cursor) : Cursor :=
        if c.row?.isSome && (c.row? == here || c.row?.any (· < least)) then move least c else c
      any (follow l) (follow r)
    | without l r => exclude (move 0) move (rows + 1) (move least l) r

def settled : Cursor → Cursor
  | any l r => if (any l r).row?.isSome then any l r else (any l r).stop
  | c => c

def joined (move : Nat → Cursor → Cursor) (rows : Nat) (whole : Bool) : List Cursor → Cursor
  | [c] => c.settled
  | parts =>
    if parts.all fun c => c.row?.isSome then conjunction move rows whole parts
    else all (stopEach parts)

/-- The parts joined to one of several alternatives; alternatives within it belong to one chain. -/
def alternative (move : Nat → Cursor → Cursor) (rows : Nat) : List Cursor → Cursor
  | [any l r] => any l r
  | parts => joined move rows false parts

def collect (move : Cursor → Cursor) : Nat → Cursor → List (Nat × List Nat)
  | 0, _ => []
  | fuel + 1, c =>
    match c.row? with
    | none => []
    | some row =>
      if c.fits then (row, c.tally row) :: collect move fuel (move c)
      else collect move fuel (move c)

end Cursor

/-- The cursors of the parts that a query asks for together, each at its first row. -/
def Expr.cursors (docs : List (Nat × Doc)) (move : Nat → Cursor → Cursor) : Expr → List Cursor
  | group g =>
    let stops := docs.filter fun (_, doc) => g.stopsAt doc
    [.leaf (Leaf.look ⟨g, stops, g.phrases.map fun _ => [], true⟩)]
  | nothing => [.leaf ⟨⟨[], 0, none⟩, [], [], true⟩]
  | both l r => l.cursors docs move ++ r.cursors docs move
  | either l r =>
    let alternative := Cursor.alternative move docs.length
    [.any (alternative (l.cursors docs move)) (alternative (r.cursors docs move))]
  | without l r =>
    let join := Cursor.joined move docs.length false
    let (l, r) := (join (l.cursors docs move), join (r.cursors docs move))
    [if l.row?.isSome then Cursor.exclude (move 0) move (docs.length + 1) l r
      else .without l r]

/-- How often the phrases of a query occur in the rows that it finds; rows are numbered from 1. -/
def Expr.tallies (e : Expr) (docs : List Doc) : List (Nat × List Nat) :=
  let docs := docs.zipIdx.map fun (doc, i) => (i + 1, doc)
  let move := Cursor.advance docs.length e.size
  let start := Cursor.joined (move false) docs.length true (e.cursors docs (move false))
  start.collect (move true 0) (docs.length + 1)

end JarAtlas.FullText
