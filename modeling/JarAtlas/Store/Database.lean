import JarAtlas.Catalogue.Answer
import JarAtlas.Files.Content
import JarAtlas.Json.Argument

/-!
Questions to a database. Its tables may be missing, and what is asked for may be any values. Values
that have to be texts are looked at before the tables, and numbers of rows after them.
-/

namespace JarAtlas

namespace Database

/-- A part of a database; `table` is the first table that a question needs. -/
def part (d : Database) (table : String) (tables : Option α) : Except Fault α :=
  match d.isReadable, tables with
  | false, _ => .error (.store .notDatabase)
  | true, some a => .ok a
  | true, none => .error (.store (.noTable table))

def catalogue (d : Database) (table : String) : Except Fault Catalogue :=
  d.part table d.api

def assetTable (d : Database) (table : String) : Except Fault AssetTable :=
  d.part table d.assets

def rowLimit (position : Nat) (limit : Json) : Except Fault (Option Nat) := do
  let cell ← Cell.ofJson position limit
  match cell.limit? with
  | some n => return n
  | none => throw (.store .mismatch)

def queryOutcome (r : Except FullText.QueryError α) : Except Fault α :=
  match r with
  | .ok a => .ok a
  | .error e => .error (.store (.query e))

/-- Fails on a pattern that is too long, if anything is compared with it. -/
def guardPattern (pattern : String) (isCompared : Bool) : Except Fault Unit :=
  if isOverlong pattern && isCompared then .error (.store .patternTooLong) else .ok ()

def stats (d : Database) : Except Fault (Nat × Nat × Nat) :=
  return (← d.catalogue "classes").counts

def details (d : Database) (package name : Json) : Except Fault (Option ClassDetails) := do
  let package ← package.stripped
  let name ← name.stripped
  return (← d.catalogue "classes").details? package name

/-- A class with its methods of one name. The name of the methods is looked at only if there is such
a class. -/
def overloads (d : Database) (package name method : Json) :
    Except Fault (Option ClassDetails) := do
  let package ← package.stripped
  let name ← name.stripped
  let c ← d.catalogue "classes"
  match c.findClass? package name with
  | none => return none
  | some _ => return c.overloads? package name (← method.stripped)

/-- A page of the classes of a package and, if `below` is set, of those below it. A page has at
least one and at most 500 rows. -/
def listClasses (d : Database) (package : Json) (below : Bool) (limit offset : Json) :
    Except Fault (List ClassRow) := do
  let package ← package.stripped
  if package == "" then return []
  let limit := clamp 1 500 (← limit.toWhole)
  let offset := max 0 (← offset.toWhole)
  let c ← d.catalogue "classes"
  if !Cell.fits offset then throw .tooLarge
  guardPattern (belowPattern package)
    (below && c.classes.rows.any fun row => row.package != package)
  return Catalogue.page limit.toNat offset.toNat (c.classesIn package below)

def packages (d : Database) (below : Json) : Except Fault (List String) := do
  if below.isGiven then
    let package ← below.stripped
    let c ← d.catalogue "classes"
    guardPattern (belowPattern package) !c.classes.rows.isEmpty
    return c.packages (some package)
  else return (← d.catalogue "classes").packages none

/-- The first hits of a query. The number of hits is looked at before the query. -/
def hits (d : Database) (query : String) (limit : Json) (f : SearchFilter) :
    Except Fault (List Hit) := do
  if Text.strip query == "" then return []
  let c ← d.catalogue "api_fts"
  let position := 2 + (if f.package.isSome then 2 else 0) + (if f.kind.isSome then 1 else 0)
  let limit ← rowLimit position limit
  if limit == some 0 then return []
  let found := (← queryOutcome (c.hits (Query.prepare query))).filter f.fitsKind
  f.package.forM fun package =>
    guardPattern (belowPattern package) (found.any fun h => h.entry.package != .text package)
  return takeLimit limit (found.filter f.fitsPackage)

def hitsPerClass : Nat := 20

def takeClasses (limit : Json) (classes : List ClassHit) : Except Fault (List ClassHit) :=
  go [] classes
where
  go (done : List ClassHit) : List ClassHit → Except Fault (List ClassHit)
    | [] => .ok done.reverse
    | c :: cs => do
      if ← limit.reachedBy (done.length + 1) then return (c :: done).reverse
      else go (c :: done) cs

end Database

structure SearchRequest where
  query : Json
  limit : Json
  package : Json := .null
  kind : Json := .null
  onePerClass : Bool := false

def SearchRequest.filter (r : SearchRequest) : Except Fault SearchFilter :=
  return .ofTexts (← r.package.givenText) (← r.kind.givenText)

namespace Database

def search (d : Database) (r : SearchRequest) : Except Fault (List Json) := do
  let query ← r.query.givenText
  if Text.strip query == "" then return []
  if r.onePerClass then
    let limit ← r.limit.times hitsPerClass
    let found ← d.hits query limit (← r.filter)
    return (← takeClasses r.limit (classHits found)).map ClassHit.toJson
  else return (← d.hits query r.limit (← r.filter)).map Hit.toJson

def implementations (d : Database) (target limit : Json) : Except Fault (List ClassRow) := do
  let c ← d.catalogue "classes"
  let limit ← rowLimit 3 limit
  guardPattern (containingPattern target.display) (limit != some 0 && !c.classes.rows.isEmpty)
  return takeLimit limit (c.implementations target.display)

def events (d : Database) (limit : Json) : Except Fault (List ClassRow × List ClassMethod) := do
  let c ← d.catalogue "classes"
  let limit ← rowLimit 1 limit
  return (takeLimit limit c.eventClasses, takeLimit limit c.subscriptions)

def systemsFor (d : Database) (component limit : Json) : Except Fault (List ClassMethod) := do
  let c ← d.catalogue "classes"
  let limit ← rowLimit 2 limit
  guardPattern (containingPattern component.display)
    (limit != some 0 && c.systems.any fun row => !(c.methodsOf row.id).isEmpty)
  return takeLimit limit (c.systemsFor component.display)

def searchAssets (d : Database) (query limit : Json) : Except Fault (List Asset) := do
  let query ← query.givenText
  if Text.strip query == "" then return []
  let t ← d.assetTable "assets"
  let limit ← rowLimit 2 limit
  if limit == some 0 then return []
  return takeLimit limit (← queryOutcome (t.search (Query.prepare query)))

def asset (d : Database) (path : Json) : Except Fault (Option Asset) := do
  let t ← d.assetTable "assets"
  return (← Cell.ofJson 1 path).asText.bind t.find?

end Database

end JarAtlas
