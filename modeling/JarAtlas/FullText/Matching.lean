import JarAtlas.FullText.Expr

/-!
When a row matches a query.
-/

namespace JarAtlas.FullText

abbrev Doc := List (List Token)

def Term.accepts (t : Term) (token : Token) : Bool :=
  if t.isPrefix then t.token.isPrefixOf token else t.token == token

def standsAt : Phrase → List Token → Bool
  | [], _ => true
  | _ :: _, [] => false
  | t :: p, token :: tokens => t.accepts token && standsAt p tokens

def placesFrom (p : Phrase) (i : Nat) (found : List Nat) : List Token → List Nat
  | [] => found.reverse
  | token :: tokens =>
    let here := standsAt p (token :: tokens) && (i == 0 || !(p.head?.any (·.atStart)))
    placesFrom p (i + 1) (if here then i :: found else found) tokens

/-- The span of places that belongs to one column: places of different columns are never near. -/
def columnSpan : Nat := 4294967296

def places (p : Phrase) (columns : Option (List Nat)) (doc : Doc) : List Nat :=
  if p.isEmpty then []
  else doc.zipIdx.flatMap fun (tokens, column) =>
    if columns.all (·.contains column) then
      (placesFrom p 0 [] tokens).map (column * columnSpan + ·)
    else []

/-- A phrase of a NEAR group while its places are walked through: its size, the places from the
current one on, and the places that are part of a match so far, reversed. -/
structure Walker where
  size : Nat
  ahead : List Nat
  kept : List Nat
  deriving Repr

def Walker.place? (w : Walker) : Option Nat :=
  w.ahead.head?

/-- Moves walkers that lie too far before the foremost place forward. Gives nothing when one has no
place left; otherwise the walkers, the foremost place and whether no walker was out of reach. -/
def alignOnce (distance : Int) : Nat → List Walker → Option (List Walker × Nat × Bool)
  | front, [] => some ([], front, true)
  | front, w :: ws =>
    let least : Int := front - (w.size + distance)
    match w.ahead with
    | [] => none
    | place :: _ =>
      if least ≤ place && place ≤ front then
        (alignOnce distance front ws).map fun (ws, front, fits) => (w :: ws, front, fits)
      else
        match w.ahead.dropWhile fun (place : Nat) => decide ((place : Int) < least) with
        | [] => none
        | place :: ahead =>
          (alignOnce distance (max front place) ws).map fun (ws, front, _) =>
            ({ w with ahead := place :: ahead } :: ws, front, false)

/-- Moves walkers until all lie within reach of the foremost one. -/
def align (distance : Int) : Nat → Nat → List Walker → Option (List Walker)
  | 0, _, _ => none
  | fuel + 1, front, ws =>
    match alignOnce distance front ws with
    | none => none
    | some (ws, front, fits) => if fits then some ws else align distance fuel front ws

def Walker.keep (w : Walker) : Walker :=
  match w.ahead with
  | place :: _ => if w.kept.head? == some place then w else { w with kept := place :: w.kept }
  | [] => w

def Walker.next? (w : Walker) : Option Nat :=
  (w.ahead.drop 1).head?

/-- Moves the first walker with the nearest next place; gives nothing when none has one. -/
def advanceNearest (ws : List Walker) : Option (List Walker) := do
  let nearest ← (ws.filterMap Walker.next?).min?
  let i ← ws.findIdx? fun w => w.next? == some nearest
  return ws.modify i fun w => { w with ahead := w.ahead.drop 1 }

def walk (distance : Int) : Nat → List Walker → List Walker
  | 0, ws => ws
  | fuel + 1, ws =>
    let front := ((ws.head?.bind Walker.place?).getD 0)
    match align distance (fuel + 1) front ws with
    | none => ws
    | some aligned =>
      let kept := aligned.map Walker.keep
      match advanceNearest kept with
      | none => kept
      | some ws => walk distance fuel ws

/-- The places of the phrases of a NEAR group that are part of a match, from all their places. -/
def Group.nearby (g : Group) (found : List (List Nat)) : List (List Nat) :=
  let walkers := (g.phrases.zip found).map fun (p, ahead) => (⟨p.length, ahead, []⟩ : Walker)
  let total := found.foldl (fun n l => n + l.length) 0
  (walk g.distance (total + 1) walkers).map fun w => w.kept.reverse

/-- Whether a group matches a row. Alone, a phrase may stand anywhere; in a NEAR group the phrases
must also be part of one match. -/
def Group.accepts (g : Group) (doc : Doc) : Bool :=
  let found := g.phrases.map fun p => places p g.columns doc
  found.all (!·.isEmpty) && (g.phrases.length == 1 || (g.nearby found).all (!·.isEmpty))

def Expr.accepts (doc : Doc) : Expr → Bool
  | group g => g.accepts doc
  | nothing => false
  | both l r => l.accepts doc && r.accepts doc
  | either l r => l.accepts doc || r.accepts doc
  | without l r => l.accepts doc && !r.accepts doc

end JarAtlas.FullText
