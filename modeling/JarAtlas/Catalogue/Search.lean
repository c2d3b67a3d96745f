import JarAtlas.Catalogue.Lookup
import JarAtlas.FullText.Ranking
import JarAtlas.Query.Terms

/-!
Searching a catalogue: the entries that match a query, each with the file of its class, best first.
-/

namespace JarAtlas

structure Hit where
  entry : EntryFields
  filePath : String
  deriving DecidableEq, Repr

def Hit.key (h : Hit) : Cell × Cell :=
  (h.entry.package, h.entry.className)

structure ClassHit where
  hit : Hit
  count : Nat
  deriving DecidableEq, Repr

structure SearchFilter where
  package : Option String := none
  kind : Option String := none
  deriving DecidableEq, Repr

def entryScheme : FullText.Scheme :=
  ⟨["package", "class_name", "kind", "method_name", "returns", "params", "const_name",
    "const_value", "snippet"], .words⟩

def EntryFields.texts (e : EntryFields) : List (List Char) :=
  e.cells.map fun cell => (cell.asText.getD "").toList

def SearchFilter.fitsKind (f : SearchFilter) (h : Hit) : Bool :=
  f.kind.all fun k => h.entry.kind == .text k

/-- Whether a hit belongs to the package that is asked for, or to one below it. -/
def SearchFilter.fitsPackage (f : SearchFilter) (h : Hit) : Bool :=
  f.package.all fun p => h.entry.package == .text p ||
    likeSome (belowPattern p) h.entry.package.text?

/-- The filter that texts given by a user mean: blanks around them do not matter, empty ones do not
narrow anything, and kinds are in lower case. -/
def SearchFilter.ofTexts (package kind : String) : SearchFilter :=
  let given (s : String) : Option String :=
    if Text.strip s == "" then none else some (Text.strip s)
  ⟨given package, (given kind).map Text.lower⟩

namespace Catalogue

/-- The class that an entry belongs to; only texts name one. -/
def classOf? (c : Catalogue) (entry : EntryFields) : Option ClassRow := do
  let package ← entry.package.text?
  let name ← entry.className.text?
  c.findClass? package name

def hit? (c : Catalogue) (entry : EntryFields) : Option Hit :=
  (c.classOf? entry).map fun row => ⟨entry, row.filePath⟩

def hits (c : Catalogue) (query : String) : Except FullText.QueryError (List Hit) := do
  let found ← FullText.search entryScheme (fun (e : Entry) => e.toEntryFields.texts) query.toList
    c.entries
  return found.filterMap fun e => c.hit? e.toEntryFields

end Catalogue

/-- The classes of some hits in the order of their first hits, each with its number of hits. -/
def classHits (hits : List Hit) : List ClassHit :=
  let firsts := hits.foldl (fun (done : List Hit) h =>
    if done.any fun d => d.key == h.key then done else done ++ [h]) []
  firsts.map fun h => ⟨h, hits.countP fun other => other.key == h.key⟩

end JarAtlas
