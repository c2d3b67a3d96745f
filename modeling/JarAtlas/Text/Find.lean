/-!
Finding, replacing and splitting inside texts.
-/

namespace JarAtlas.Text

def occursIn (part : List Char) : List Char → Bool
  | [] => part.isEmpty
  | c :: cs => part.isPrefixOf (c :: cs) || occursIn part cs

def contains (s part : String) : Bool :=
  occursIn part.toList s.toList

def startsWith (s head : String) : Bool :=
  head.toList.isPrefixOf s.toList

def endsWith (s tail : String) : Bool :=
  tail.toList.reverse.isPrefixOf s.toList.reverse

/-- Replaces the occurrences of `old`, found from left to right without overlap, by `new`. -/
def replaceAll (old new : List Char) (cs : List Char) : List Char :=
  go cs 0 []
where
  go : List Char → Nat → List Char → List Char
    | [], _, done => done.reverse
    | _ :: cs, skip + 1, done => go cs skip done
    | c :: cs, 0, done =>
      if old.isPrefixOf (c :: cs) then go cs (old.length - 1) (new.reverseAux done)
      else go cs 0 (c :: done)

def replace (s old new : String) : String :=
  String.ofList (replaceAll old.toList new.toList s.toList)

/-- The pieces between the occurrences of `sep`: one more than there are occurrences. -/
def splitAt (sep : Char) (cs : List Char) : List (List Char) :=
  go cs [] []
where
  go : List Char → List Char → List (List Char) → List (List Char)
    | [], piece, done => (piece.reverse :: done).reverse
    | c :: cs, piece, done =>
      if c = sep then go cs [] (piece.reverse :: done) else go cs (c :: piece) done

def split (s : String) (sep : Char) : List String :=
  (splitAt sep s.toList).map String.ofList

def splitLast? (sep : Char) (cs : List Char) : Option (List Char × List Char) :=
  match cs.reverse.span (· != sep) with
  | (_, []) => none
  | (after, _ :: before) => some (before.reverse, after.reverse)

def splitFirst? (sep : Char) (cs : List Char) : Option (List Char × List Char) :=
  match cs.span (· != sep) with
  | (_, []) => none
  | (before, _ :: after) => some (before, after)

def join (sep : String) (pieces : List String) : String :=
  sep.intercalate pieces

end JarAtlas.Text
