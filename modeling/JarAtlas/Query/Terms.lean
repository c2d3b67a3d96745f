import JarAtlas.Text.Blank
import JarAtlas.Text.Letters

/-!
Queries as users type them. Before a full-text search, terms with special characters are quoted and
dotted names become filters on the package and the class name.
-/

namespace JarAtlas.Query

/-- Where the division of a query into terms stands; the term so far is reversed. -/
inductive TermState where
  | between
  | inWord (done : List Char)
  | inQuotes (done : List Char)

/-- The terms of a query: quoted phrases with their quotes, and runs without blanks. A quote that is
never closed starts a run. -/
def terms (cs : List Char) : List (List Char) :=
  go .between [] cs
where
  go (state : TermState) (found : List (List Char)) : List Char → List (List Char)
    | [] =>
      match state with
      | .between => found.reverse
      | .inWord done | .inQuotes done => (done.reverse :: found).reverse
    | c :: cs =>
      match state with
      | .between =>
        if Text.isBlank c then go .between found cs
        else if c == '"' && cs.contains '"' then go (.inQuotes [c]) found cs
        else go (.inWord [c]) found cs
      | .inWord done =>
        if Text.isBlank c then go .between (done.reverse :: found) cs
        else go (.inWord (c :: done)) found cs
      | .inQuotes done =>
        if c == '"' then go .between ((c :: done).reverse :: found) cs
        else go (.inQuotes (c :: done)) found cs

def quoted (cs : List Char) : List Char :=
  '"' :: (cs ++ ['"'])

def isQuoted (term : List Char) : Bool :=
  term.head? == some '"' && term.getLast? == some '"'

/-- A term with a dot: `p.*` looks for packages, `p.Name` for a class of a package, and anything
else for the text itself. -/
def dottedTerm (term : List Char) : List Char :=
  if ['*', '.'].isPrefixOf term.reverse then
    "package:\"".toList ++ term.dropLast.dropLast ++ "*\"".toList
  else
    match Text.splitLast? '.' term with
    | some (package, name) =>
      if name.head?.any Text.isCapital then
        "(package:\"".toList ++ package ++ "\" AND class_name:\"".toList ++ name ++ "*\")".toList
      else quoted term
    | none => quoted term

def prepareTerm (term : List Char) : List Char :=
  if isQuoted term then term
  else if term.contains '.' then dottedTerm term
  else if term.any fun c => c == '/' || c == ':' || c == '-' then
    quoted (term.flatMap fun c => if c == '"' then ['"', '"'] else [c])
  else term

def prepareChars (cs : List Char) : List Char :=
  [' '].intercalate ((terms cs).map prepareTerm)

def prepare (query : String) : String :=
  String.ofList (prepareChars query.toList)

/-- The query that a search runs: prepared, trimmed and prepared once more. -/
def prepareTwice (query : String) : String :=
  prepare (Text.strip (prepare query))

def isWebAddress (word : List Char) : Bool :=
  let low := Text.lowerChars word
  "http:".toList.isPrefixOf low || "https:".toList.isPrefixOf low

def filter? (word : List Char) : Option (String × String) :=
  if isWebAddress word then none
  else (Text.splitFirst? ':' word).map fun (key, value) =>
    (String.ofList (Text.lowerChars key), String.ofList value)

def assignFilter (key value : String) : List (String × String) → List (String × String)
  | [] => [(key, value)]
  | (k, old) :: rest =>
    if k == key then (k, value) :: rest else (k, old) :: assignFilter key value rest

def splitFilters (query : String) : String × List (String × String) :=
  let ws := Text.words query.toList
  let plain := ws.filter fun w => (filter? w).isNone
  let filters := ws.filterMap filter?
  (Text.join " " (plain.map String.ofList),
    filters.foldl (fun done (key, value) => assignFilter key value done) [])

/-- The full-text query for the plain words of a query; without any it asks for everything. -/
def withoutFilters (query : String) : String :=
  let rest := (splitFilters query).1
  prepare (if rest == "" then "*" else rest)

def splitName? (name : String) : Option (String × String) :=
  (Text.splitLast? '.' (Text.trim name.toList)).map fun (package, last) =>
    (String.ofList package, String.ofList last)

end JarAtlas.Query
