import JarAtlas.Explore.Details
import JarAtlas.Proofs.Explore.Confinement
import JarAtlas.Proofs.Explore.Names
import JarAtlas.Proofs.Workspace.Layout

/-!
Searching the catalogue of a version after it was built. The query is prepared twice on the way to
the database. A plain name is left alone both times, so every class is found under its name.

The search looks for the database where the environment says it is at that time. This is where the
catalogue was built, unless building it made the very directory that the environment names for
output.
-/

namespace JarAtlas

open JarAtlas.Action Query

namespace Layout

variable {h h' : Host}

theorem catalogue_of_indexed {root database : Path} {version : String} {stats : Nat × Nat × Nat}
    (hindex : (indexVersion root version).outcome h = (.ok (.ok stats), h'))
    (hdatabase : (catalogue root version).outcome h = (.ok database, h))
    (houtput : OutputIsThere h) : (catalogue root version).outcome h' = (.ok database, h') := by
  obtain ⟨_, _, _, _, -, -, hdone⟩ := indexVersion_outcome_ok hindex
  have hkept := hdone.grows.preserves
  exact (agrees_catalogue hkept (agrees_workspace hkept (houtput.same hkept) root)
    version).outcome_ok (reads_catalogue root version) hdatabase

end Layout

section Outcome

variable {h : Host} {p : Path} {d : Database} {query : String} {r : Except Fault (List Json)}

theorem isFile_outcome_of_stores (hstores : h.Stores p d) :
    (isFile p).outcome h = (.ok true, h) := by
  obtain ⟨place, time, hopens, hfile⟩ := hstores
  rw [outcome_isFile,
    Host.isFile_eq_true_iff.mpr ⟨_, hopens.noNull, place, time, hopens.leads, hfile⟩]

theorem askCatalogue_outcome {α : Type} {given : Option Path} {root : Path} {v : ServerVersion}
    {h' : Host} (hroot : (rootOr given).outcome h = (.ok root, h'))
    (hplace : (Layout.catalogue root v.name).outcome h' = (.ok p, h')) (hstores : h'.Stores p d)
    (f : Database → Except Fault α) :
    (askCatalogue given v f).outcome h = ((f d).map .ok, h') := by
  rw [askCatalogue, bind_of_ok hroot, bind_of_ok hplace,
    bind_of_ok (isFile_outcome_of_stores hstores), if_pos rfl, outcome_bind,
    queryDatabase_outcome hstores]
  cases f d <;> rfl

theorem searchDatabase_outcome (hstores : h.Stores p d) (query : String) (r : SearchRequest) :
    (searchDatabase p { r with query := .str query }).outcome h =
      (d.search { r with query := .str (Text.strip query) }, h) := by
  unfold searchDatabase
  rw [Json.givenText_str, bind_of_ok (outcome_ofExcept _ h)]
  by_cases hblank : Text.strip query = ""
  · have hnone : d.search { r with query := .str "" } = .ok [] := by rfl
    rw [hblank, if_pos (by simp), hnone]
    rfl
  · rw [if_neg (by simpa using hblank), queryDatabase_outcome hstores]

def SearchRequest.forText (query : String) : SearchRequest :=
  { query := .str query, limit := .int 500 }

variable {root : Path} {v : ServerVersion}

theorem searchCatalogue_outcome_of_request
    (hplace : (Layout.catalogue root v.name).outcome h = (.ok p, h)) (hstores : h.Stores p d)
    {request : SearchRequest} {limit : Json} (hquery : request.query = .str query)
    (hlimit : request.limit.clamp 1 500 = .ok limit)
    (hr : d.search { request with query := .str (prepare query), limit } = r)
    (localized : Bool) :
    (searchCatalogue (some root) v request localized).outcome h =
      (do
        match r with
        | .ok rows => return .ok rows
        | .error e => return .error (← searchProblem e localized) :
        Action (Except Problem (List Json))).outcome h := by
  have hroot : (rootOr (some root)).outcome h = (.ok root, h) := rfl
  have hprepared : (ofExcept (preparedValue request.query)).outcome h =
      (.ok (prepare query), h) := by
    rw [hquery]
    exact outcome_ofExcept _ h
  have hclamped : (ofExcept (request.limit.clamp 1 500)).outcome h = (.ok limit, h) := by
    rw [hlimit, outcome_ofExcept]
  have hfound := searchDatabase_outcome hstores (prepare query) { request with limit }
  rw [strip_prepare, hr] at hfound
  have hsearch : (attempt (searchDatabase p
      { request with query := .str (prepare query), limit })).outcome h = (.ok r, h) := by
    rw [outcome_attempt]
    exact congrArg (fun o => (Except.ok o.1, o.2)) hfound
  unfold searchCatalogue
  rw [bind_of_ok hroot, bind_of_ok hprepared, bind_of_ok hclamped,
    bind_of_ok hplace, bind_of_ok (isFile_outcome_of_stores hstores), if_pos rfl,
    strip_prepare]
  exact bind_of_ok hsearch

theorem searchCatalogue_outcome (hplace : (Layout.catalogue root v.name).outcome h = (.ok p, h))
    (hstores : h.Stores p d) (hr : d.search (.forText (prepare query)) = r)
    (localized : Bool) :
    (searchCatalogue (some root) v (.forText query) localized).outcome h =
      (do
        match r with
        | .ok rows => return .ok rows
        | .error e => return .error (← searchProblem e localized) :
        Action (Except Problem (List Json))).outcome h := by
  have hlimit : (SearchRequest.forText query).limit.clamp 1 500 = .ok (.int 500) := rfl
  exact searchCatalogue_outcome_of_request hplace hstores rfl hlimit hr localized

theorem searchCatalogue_outcome_of_missing
    (hplace : (Layout.catalogue root v.name).outcome h = (.ok p, h))
    (hfile : (isFile p).outcome h = (.ok false, h)) (query : String) :
    (searchCatalogue (some root) v (.forText query) false).outcome h =
      (.ok (.error ⟨"no_db", .str ("Database for version " ++ v.name ++
        " does not exist. Run prism index first."), []⟩), h) := by
  have hroot : (rootOr (some root)).outcome h = (.ok root, h) := rfl
  have hquery : (ofExcept (preparedValue (.str query))).outcome h =
      (.ok (prepare query), h) := outcome_ofExcept _ h
  have hlimit : (ofExcept ((Json.int 500).clamp 1 500)).outcome h = (.ok (.int 500), h) := rfl
  unfold searchCatalogue
  rw [bind_of_ok hroot]
  simp only [SearchRequest.forText]
  rw [bind_of_ok hquery, bind_of_ok hlimit, bind_of_ok hplace,
    bind_of_ok hfile]
  rfl

theorem search_forText (d : Database) (query : String) :
    d.search (.forText query) =
      (d.hits query (.int 500) (.given none none)).map (List.map Hit.toJson) :=
  d.search_eq_hits query (.int 500) none none

end Outcome

namespace Host

/-- A search of the catalogue of a version for a text, with room for 500 rows, shows the entry. -/
def Finds (h : Host) (root : Path) (v : ServerVersion) (query : String) (e : EntryFields) : Prop :=
  ∃ found : List Hit, e ∈ found.map Hit.entry ∧ ∀ localized,
    (searchCatalogue (some root) v (.forText query) localized).outcome h =
      (.ok (.ok (found.map Hit.toJson)), h)

end Host

theorem SourceFile.names_of_mem_types {files : List SourceFile} {t : String × Java.TypeDecl}
    (ht : t ∈ SourceFile.types files) :
    Java.IsDotted t.2.package.toList ∧ Java.IsName t.2.name.toList := by
  obtain ⟨f, -, hf⟩ := List.mem_flatMap.mp ht
  obtain ⟨d, hd, rfl⟩ := List.mem_map.mp hf
  exact Java.names_of_mem_extract hd

theorem Java.TypeDecl.mentions_name {d : Java.TypeDecl}
    (hwords : FullText.wordTokens d.name.toList ≠ []) :
    FullText.Mentions (entryScheme.doc d.entry.texts) none (FullText.wordTokens d.name.toList) :=
  ⟨hwords, 1, _, rfl, rfl, List.infix_refl _⟩

/-- After a successful run, every extracted type whose name has words and is no operator is found
under its name, as long as no more than 500 entries are asked for by it and the database is still
looked for where it was made. -/
theorem finds_name_of_indexed {root : Path} {v : ServerVersion} {h h' : Host}
    {stats : Nat × Nat × Nat} {dir database : Path}
    (hindex : (indexVersion root v.name).outcome h = (.ok (.ok stats), h'))
    (hdir : (Layout.sources root v.name).outcome h = (.ok dir, h))
    (hdatabase : (Layout.catalogue root v.name).outcome h = (.ok database, h))
    (hplace : (Layout.catalogue root v.name).outcome h' = (.ok database, h'))
    {t : String × Java.TypeDecl} (ht : t ∈ SourceFile.types (SourceFile.below h dir))
    (hwords : FullText.wordTokens t.2.name.toList ≠ [])
    (hoperator : t.2.name.toList ∉ FullText.operators)
    (hfew : ((SourceFile.types (SourceFile.below h dir)).flatMap fun u => u.2.entries).countP
      (fun e => entryScheme.asksFor t.2.name.toList (entryScheme.doc e.texts)) ≤ 500) :
    h'.Finds root v t.2.name t.2.entry := by
  obtain ⟨c, d, hjoins, hreadable, hapi, -, hstores⟩ := indexVersion_joins hindex hdir hdatabase
  have hname : Java.IsName t.2.name.toList := (SourceFile.names_of_mem_types ht).2
  have hprepare : Query.prepare t.2.name = t.2.name := by
    rw [Query.prepare, hname.prepareChars_eq, String.ofList_toList]
  obtain ⟨hproblem, hasks⟩ := asksFor_name hname hoperator
  rw [← hprepare] at hproblem hasks hfew
  obtain ⟨found, hfound, hperm⟩ :=
    hjoins.hits_perm hreadable hapi hproblem hfew
  refine ⟨found, hperm.mem_iff.mpr (List.mem_filter.mpr ⟨?_, ?_⟩), fun localized => ?_⟩
  · exact List.mem_flatMap.mpr ⟨t, ht, List.mem_cons_self⟩
  · rw [hasks, hprepare]
    exact Java.TypeDecl.mentions_name hwords
  · have hsearch : d.search (.forText (Query.prepare t.2.name)) =
        .ok (found.map Hit.toJson) := by
      rw [search_forText, hprepare, hfound]
      rfl
    rw [searchCatalogue_outcome hplace hstores hsearch]
    rfl

theorem finds_name_smallWorkspace :
    ∃ h', (indexVersion (.absolute ["w"]) "release").outcome smallWorkspace =
        (.ok (.ok (1, 1, 0)), h') ∧
      h'.Finds (.absolute ["w"]) .release "A" smallType.entry := by
  obtain ⟨h', hindex⟩ := indexVersion_smallWorkspace
  have houtput : Layout.OutputIsThere smallWorkspace := by
    intro s hs
    exact nomatch hs
  have hplace := Layout.catalogue_of_indexed hindex catalogue_smallWorkspace houtput
  refine ⟨h', hindex, ?_⟩
  refine finds_name_of_indexed (v := .release) (t := ("A.java", smallType)) hindex
    sources_smallWorkspace catalogue_smallWorkspace hplace ?_ ?_ ?_ ?_
  · rw [types_smallWorkspace]
    exact List.mem_singleton_self _
  · decide +kernel
  · decide +kernel
  · rw [types_smallWorkspace]
    decide +kernel

def shiftedWorkspace : Host where
  env := [("PRISM_OUTPUT_DIR", "/w/workspace/db")]
  files := ⟨[
    (["w"], .directory), (["w", "workspace"], .directory),
    (["w", "workspace", "sources"], .directory),
    (["w", "workspace", "sources", "release"], .directory),
    (["w", "workspace", "sources", "release", "A.java"],
      .file (.ofText "package p;\npublic class A \x7b\n  public int size();\n\x7d\n") 5)]⟩

/-- There the catalogue is built in one place and looked for in another, so nothing is found. -/
theorem search_fails_shiftedWorkspace :
    ∃ h' problem,
      (indexVersion (.absolute ["w"]) "release").outcome shiftedWorkspace =
        (.ok (.ok (1, 1, 0)), h') ∧
      (searchCatalogue (some (.absolute ["w"])) .release (.forText "A") false).outcome h' =
        (.ok (.error problem), h') ∧
      problem.kind = "no_db" := by
  have hall : ((do
      let built ← indexVersion (.absolute ["w"]) "release"
      let p ← Layout.catalogue (.absolute ["w"]) "release"
      let isFile ← Action.isFile p
      return (built, isFile) : Action _).outcome shiftedWorkspace).1 =
        .ok (.ok (1, 1, 0), false) := by
    simp only [indexVersion, Console.withProgress_release]
    decide +kernel
  obtain ⟨built, h', hindex, hrest⟩ := bind_ok_iff.mp (Prod.ext hall rfl)
  obtain ⟨p, hplace, hrest⟩ := (Layout.reads_catalogue _ _).bind_ok hrest
  obtain ⟨isFile, hfile, hrest⟩ := (reads_isFile p).bind_ok hrest
  obtain ⟨hsame, -⟩ := pure_ok hrest
  obtain ⟨rfl, rfl⟩ := Prod.mk.inj hsame
  have hmissing := searchCatalogue_outcome_of_missing (v := .release) hplace hfile "A"
  exact ⟨h', _, hindex, hmissing, rfl⟩

/-! ### Queries written in the syntax that users are told about -/

open Text

namespace Query

/-- A token: a word, which may be an operator, the start of a word, or a phrase. -/
inductive IsToken : List Char → Prop where
  | word {w : List Char} (hne : w ≠ []) (hword : ∀ c ∈ w, Text.isWord c = true) : IsToken w
  | start {w : List Char} (hne : w ≠ []) (hword : ∀ c ∈ w, Text.isWord c = true) :
      IsToken (w ++ ['*'])
  | phrase {s : List Char} (hs : '"' ∉ s) : IsToken (quoted s)

/-- Tokens with blanks between them, and perhaps before and after them. -/
inductive Spells : List Char → List (List Char) → Prop where
  | nil : Spells [] []
  | blank {c : Char} {cs : List Char} {ts : List (List Char)} (hc : Text.isBlank c = true)
      (hrest : Spells cs ts) : Spells (c :: cs) ts
  | token {t : List Char} (ht : IsToken t) {rest : List Char} {ts : List (List Char)}
      (hend : ∀ c ∈ rest.head?, Text.isBlank c = true) (hrest : Spells rest ts) :
      Spells (t ++ rest) (t :: ts)

def IsStarred (w : List Char) : Prop :=
  ∀ c ∈ w, Text.isWord c = true ∨ c = '*'

/-- A token is a phrase or a run of word characters and stars. -/
theorem IsToken.cases {t : List Char} (ht : IsToken t) :
    (∃ s, t = quoted s ∧ '"' ∉ s) ∨ (t ≠ [] ∧ IsStarred t) := by
  cases ht with
  | word hne hword => exact .inr ⟨hne, fun c hc => .inl (hword c hc)⟩
  | start hne hword =>
    refine .inr ⟨by simp, fun c hc => ?_⟩
    rcases List.mem_append.mp hc with hc | hc
    · exact .inl (hword c hc)
    · exact .inr (by simpa using hc)
  | phrase hs => exact .inl ⟨_, rfl, hs⟩

namespace IsStarred

variable {w : List Char}

theorem not_mem (hw : IsStarred w) {c : Char} (hc : isWord c = false) (hstar : c ≠ '*') :
    c ∉ w := by
  intro hmem
  rcases hw c hmem with hword | hc'
  · simp [hc] at hword
  · exact hstar hc'

theorem isBlank_eq_false (hw : IsStarred w) : ∀ c ∈ w, isBlank c = false := by
  intro c hc
  rcases hw c hc with hword | rfl
  · exact isBlank_eq_false_of_isWord hword
  · decide

theorem isPlain (hw : IsStarred w) : isPlain w := by
  rw [Query.isPlain, Bool.not_eq_true', List.any_eq_false]
  intro c hc hmark
  have hmarks : c = '.' ∨ c = '/' ∨ c = ':' ∨ c = '-' := by simpa [or_assoc] using hmark
  rcases hmarks with rfl | rfl | rfl | rfl <;>
    exact hw.not_mem (by decide) (by decide) hc

theorem head?_ne (hw : IsStarred w) : w.head? ≠ some '"' := by
  intro hhead
  exact hw.not_mem (by decide) (by decide) (List.mem_of_mem_head? hhead)

end IsStarred

namespace IsToken

variable {t : List Char}

theorem isSettled (ht : IsToken t) : isSettled t := by
  rcases ht.cases with ⟨s, rfl, -⟩ | ⟨-, hw⟩
  · simp [Query.isSettled, isQuoted_quoted]
  · simp [Query.isSettled, hw.isPlain]

theorem prepareTerm_eq (ht : IsToken t) : prepareTerm t = t := by
  rcases ht.cases with ⟨s, rfl, -⟩ | ⟨-, hw⟩
  · exact prepareTerm_of_isQuoted (isQuoted_quoted s)
  · exact prepareTerm_of_isPlain hw.isPlain

theorem opensQuote_eq_false (ht : IsToken t) : opensQuote t = false := by
  rcases ht.cases with ⟨s, rfl, -⟩ | ⟨-, hw⟩
  · exact opensQuote_quoted s
  · simp [opensQuote, hw.head?_ne]

end IsToken

namespace Spells

variable {cs : List Char} {ts : List (List Char)}

theorem token_blank {t : List Char} (ht : IsToken t) {c : Char} (hc : isBlank c)
    (h : Spells cs ts) : Spells (t ++ c :: cs) (t :: ts) :=
  .token ht (by simpa using hc) (.blank hc h)

theorem isToken_of_mem (h : Spells cs ts) : ∀ t ∈ ts, IsToken t := by
  induction h with
  | nil => simp
  | blank _ _ ih => exact ih
  | token ht _ _ ih => exact List.forall_mem_cons.mpr ⟨ht, ih⟩

theorem divides (h : Spells cs ts) : Divides cs ts := by
  induction h with
  | nil => exact .nil
  | blank hc _ ih => exact .blank hc ih
  | token ht hend _ ih =>
    rcases ht.cases with ⟨s, rfl, hs⟩ | ⟨hne, hw⟩
    · exact .phrase hs ih
    · exact .run hne hw.isBlank_eq_false hend (fun hhead => absurd hhead hw.head?_ne) ih

theorem prepareChars_eq (h : Spells cs ts) : prepareChars cs = [' '].intercalate ts := by
  have hsame : ts.map prepareTerm = ts.map id :=
    List.map_congr_left fun t ht => (h.isToken_of_mem t ht).prepareTerm_eq
  rw [prepareChars, h.divides.terms_eq, hsame, List.map_id]

theorem areStable (h : Spells cs ts) : AreStable ts where
  settled t ht := (h.isToken_of_mem t ht).isSettled
  closed := by
    -- A phrase ends with its own quote, so no token leaves one open for those after it.
    refine List.pairwise_iff_forall_sublist.mpr fun {t u} hsub hopens => ?_
    have ht : t ∈ ts := hsub.subset List.mem_cons_self
    simp [(h.isToken_of_mem t ht).opensQuote_eq_false] at hopens

theorem prepareChars_joined (h : Spells cs ts) :
    prepareChars ([' '].intercalate ts) = [' '].intercalate ts := by
  have hstable : AreStable (terms cs) := by
    rw [h.divides.terms_eq]
    exact h.areStable
  have hagain := (prepareChars_prepareChars_iff cs).mpr hstable
  rwa [h.prepareChars_eq] at hagain

theorem prepare_eq {q : String} (h : Spells q.toList ts) :
    prepare q = String.ofList ([' '].intercalate ts) := by
  rw [prepare, h.prepareChars_eq]

/-- The tokens with one space between any two of them are a query that stays as it is. -/
theorem prepare_joined (h : Spells cs ts) :
    prepare (String.ofList ([' '].intercalate ts)) = String.ofList ([' '].intercalate ts) := by
  rw [prepare, String.toList_ofList, h.prepareChars_joined]

end Spells

end Query

theorem Catalogue.hits_empty (c : Catalogue) (found : List Hit) : c.hits "" ≠ .ok found := by
  have hproblem : (entryScheme.problem? "".toList).isSome := by decide +kernel
  obtain ⟨e, he⟩ := Option.isSome_iff_exists.mp hproblem
  rw [hits_of_problem he]
  simp

theorem Database.search_forText_of_hits {d : Database} {c : Catalogue} {query : String}
    {found : List Hit} (hreadable : d.isReadable) (hapi : d.api = some c)
    (hfound : c.hits (prepare query) = .ok found) :
    d.search (.forText query) = .ok ((found.take 500).map Hit.toJson) := by
  have hblank : strip query ≠ "" := by
    intro hblank
    rw [prepare_eq_empty_iff.mpr hblank] at hfound
    exact c.hits_empty found hfound
  have hkind : found.filter (SearchFilter.given none none).fitsKind = found :=
    List.filter_eq_self.mpr fun _ _ => rfl
  have hpackage : found.filter (SearchFilter.given none none).fitsPackage = found :=
    List.filter_eq_self.mpr fun _ _ => rfl
  rw [search_forText, hits_eq hreadable hapi hblank (by decide) (by decide), hfound]
  simp only [queryOutcome, bind, Except.bind, hkind, hpackage]
  rfl

/-- A query in the documented syntax comes through both preparations with its tokens as they are,
and a search shows the entries that these tokens ask for. -/
theorem Query.prepareTwice_of_spells {q : String} {ts : List (List Char)}
    (hq : Spells q.toList ts) :
    prepareTwice q = String.ofList ([' '].intercalate ts) ∧
    ∀ {root p : Path} {v : ServerVersion} {h : Host} {d : Database} {c : Catalogue}
      {found : List Hit},
      (Layout.catalogue root v.name).outcome h = (.ok p, h) → h.Stores p d →
      d.isReadable = true → d.api = some c →
      c.hits (String.ofList ([' '].intercalate ts)) = .ok found → ∀ localized,
      (searchCatalogue (some root) v (.forText q) localized).outcome h =
        (.ok (.ok ((found.take 500).map Hit.toJson)), h) := by
  constructor
  · rw [prepareTwice, strip_prepare, hq.prepare_eq, hq.prepare_joined]
  · intro root p v h d c found hplace hstores hreadable hapi hfound localized
    have hagain : c.hits (prepare (prepare q)) = .ok found := by
      rw [hq.prepare_eq, hq.prepare_joined, hfound]
    have hsearch := Database.search_forText_of_hits hreadable hapi hagain
    rw [searchCatalogue_outcome hplace hstores hsearch]
    rfl

/-- The entry of a class, with a text in which special characters stand. -/
def gateEntry : EntryFields where
  package := .text "a.b"
  className := .text "Gate"
  kind := .text "class"
  snippet := .text "opens a.b/C -x"

def gateCatalogue : Catalogue where
  classes := ⟨[⟨1, "a.b", "Gate", "class", "a/b/Gate.java", none, none⟩], 1⟩
  entries := [⟨gateEntry, 1⟩]

/-- A query with blanks of several kinds, the start of a word, two operators, and a phrase with
special characters in it. -/
theorem Query.spells_gate :
    Spells " Ga* AND\t\"a.b/C -x\"\n OR über_1 ".toList
      ["Ga*".toList, "AND".toList, "\"a.b/C -x\"".toList, "OR".toList, "über_1".toList] := by
  have hstart : IsToken "Ga*".toList := .start (w := "Ga".toList) (by decide) (by decide)
  have hand : IsToken "AND".toList := .word (by decide) (by decide)
  have hphrase : IsToken "\"a.b/C -x\"".toList := .phrase (s := "a.b/C -x".toList) (by decide)
  have hor : IsToken "OR".toList := .word (by decide) (by decide)
  have hword : IsToken "über_1".toList := .word (by decide) (by decide +kernel)
  refine .blank (by decide) (.token_blank hstart (by decide) ?_)
  refine .token_blank hand (by decide) ?_
  refine .token_blank hphrase (by decide) (.blank (by decide) ?_)
  refine .token_blank hor (by decide) ?_
  exact .token_blank hword (by decide) .nil

/-- Such a query is asked as it is written, but for the blanks, and shows the class. -/
theorem Query.prepareTwice_of_spells_gate :
    prepareTwice " Ga* AND\t\"a.b/C -x\"\n OR über_1 " = "Ga* AND \"a.b/C -x\" OR über_1" ∧
      (searchCatalogue (some (.absolute ["w"])) .release
        (.forText " Ga* AND\t\"a.b/C -x\"\n OR über_1 ") false).outcome
          (releaseMachine gateCatalogue) =
        (.ok (.ok [Hit.toJson ⟨gateEntry, "a/b/Gate.java"⟩]), releaseMachine gateCatalogue) := by
  have hhits : gateCatalogue.hits "Ga* AND \"a.b/C -x\" OR über_1" =
      .ok [⟨gateEntry, "a/b/Gate.java"⟩] := by decide +kernel
  obtain ⟨htokens, hshown⟩ := prepareTwice_of_spells spells_gate
  exact ⟨htokens, hshown rfl (stores_releaseMachine _) rfl rfl hhits false⟩

/-!
How a search answers a query that the database cannot read. The search tells such a query from
other failures by two words in the message, `fts5` and `syntax`. Some messages name neither and
quote a part of the query instead, so the answer then depends on what is quoted.
-/

open List

namespace Text

variable {c : Char} {a b : List Char}

theorem goesOn_append_cons (hpassed : isPassedOver c = false) (hcased : isCased c = false)
    (a b : List Char) : goesOn (a ++ c :: b) = goesOn a := by
  unfold goesOn
  induction a with
  | nil => simp [hpassed, hcased]
  | cons x a ih =>
    by_cases hx : isPassedOver x = true
    · rw [cons_append, dropWhile_cons_of_pos hx, dropWhile_cons_of_pos hx, ih]
    · rw [cons_append, dropWhile_cons_of_neg hx, dropWhile_cons_of_neg hx]
      rfl

theorem lowerChars_go_cons (within : Bool) (x : Char) (cs done : List Char) :
    lowerChars.go within (x :: cs) done =
      lowerChars.go (if isPassedOver x then within else isCased x) cs
        ((if x == 'Σ' && within && !goesOn cs then ['ς'] else lowerChar x).reverseAux done) := by
  rfl

theorem lowerChars_go_eq (within : Bool) (cs done : List Char) :
    lowerChars.go within cs done = done.reverse ++ lowerChars.go within cs [] := by
  induction cs generalizing within done with
  | nil => exact (append_nil _).symm
  | cons x cs ih =>
    rw [lowerChars_go_cons, lowerChars_go_cons, ih, ih _ (reverseAux _ [])]
    simp [reverseAux_eq]

theorem lowerChars_eq_go (cs : List Char) : lowerChars cs = lowerChars.go false cs [] := by
  unfold lowerChars
  split
  · rfl
  · next hsigma =>
    have hall : ∀ within, lowerChars.go within cs [] = cs.flatMap lowerChar := by
      induction cs with
      | nil => exact fun _ => rfl
      | cons x cs ih =>
        intro within
        simp only [contains_cons, Bool.or_eq_true, not_or, Bool.not_eq_true] at hsigma
        have hx : (x == 'Σ') = false := by
          rw [Bool.beq_comm]
          exact hsigma.1
        rw [lowerChars_go_cons, lowerChars_go_eq, ih (by simpa using hsigma.2)]
        simp [hx, reverseAux_eq]
    exact (hall false).symm

theorem lowerChars_append_cons (hpassed : isPassedOver c = false) (hcased : isCased c = false)
    (hsigma : (c == 'Σ') = false) (a b : List Char) :
    lowerChars (a ++ c :: b) = lowerChars a ++ (lowerChar c ++ lowerChars b) := by
  have hgo : ∀ within, lowerChars.go within (a ++ c :: b) [] =
      lowerChars.go within a [] ++ (lowerChar c ++ lowerChars.go false b []) := by
    induction a with
    | nil =>
      intro within
      have hnil : lowerChars.go within [] [] = [] := rfl
      rw [nil_append, lowerChars_go_cons, lowerChars_go_eq, hpassed, hcased, hsigma, hnil]
      simp [reverseAux_eq]
    | cons x a ih =>
      intro within
      rw [cons_append, lowerChars_go_cons, lowerChars_go_cons, lowerChars_go_eq, ih,
        lowerChars_go_eq _ a (reverseAux _ []), goesOn_append_cons hpassed hcased, append_assoc]
  rw [lowerChars_eq_go, hgo, ← lowerChars_eq_go, ← lowerChars_eq_go]

/-- Whether a text names, in any case, one of the two words that a search looks for in a message. -/
def namesSyntax (text : List Char) : Bool :=
  occursIn "fts5".toList (lowerChars text) || occursIn "syntax".toList (lowerChars text)

theorem namesSyntax_append_cons (hc : c = ' ' ∨ c = '"') (a b : List Char) :
    namesSyntax (a ++ c :: b) = (namesSyntax a || namesSyntax b) := by
  have hlower : lowerChars (a ++ c :: b) = lowerChars a ++ c :: lowerChars b := by
    rcases hc with rfl | rfl
    · exact lowerChars_append_cons (by decide +kernel) (by decide +kernel) (by decide) a b
    · exact lowerChars_append_cons (by decide +kernel) (by decide +kernel) (by decide) a b
  have hfts : c ∉ "fts5".toList := by rcases hc with rfl | rfl <;> decide
  have hsyntax : c ∉ "syntax".toList := by rcases hc with rfl | rfl <;> decide
  unfold namesSyntax
  rw [hlower, occursIn_append_cons hfts (by decide), occursIn_append_cons hsyntax (by decide)]
  ac_rfl

end Text

namespace FullText.QueryError

/-- Whether the message of a refused query speaks of its syntax, of itself or by what it quotes. -/
def saysSyntax : QueryError → Bool
  | unexpected _ => true
  | unterminated => false
  | noColumn name => Text.namesSyntax name
  | badDistance text => Text.namesSyntax text
  | unknownDirective name => Text.namesSyntax name
  | tooNested => true
  | tooLarge => true

theorem namesSyntax_message (e : QueryError) : namesSyntax e.message.toList = e.saysSyntax := by
  have hspace := fun a b : List Char => namesSyntax_append_cons (.inl rfl) a b
  have hquote := fun a b : List Char => namesSyntax_append_cons (.inr rfl) a b
  have hnone : namesSyntax [] = false := by decide +kernel
  cases e with
  | unexpected token =>
    have hmessage : (unexpected token).message =
        "fts5: syntax error near \"" ++ String.ofList token ++ "\"" := rfl
    have hchars : (unexpected token).message.toList =
        "fts5: syntax error near ".toList ++ '"' :: (token ++ ['"']) := by simp [hmessage]
    have hnames : namesSyntax "fts5: syntax error near ".toList := by decide +kernel
    rw [hchars, hquote, hnames]
    rfl
  | unterminated => decide +kernel
  | noColumn name =>
    have hmessage : (noColumn name).message = "no such column: " ++ String.ofList name := rfl
    have hchars : (noColumn name).message.toList = "no such column:".toList ++ ' ' :: name := by
      simp [hmessage]
    have hnames : namesSyntax "no such column:".toList = false := by decide +kernel
    rw [hchars, hspace, hnames, Bool.false_or, saysSyntax]
  | badDistance text =>
    have hmessage : (badDistance text).message =
        "expected integer, got \"" ++ String.ofList text ++ "\"" := rfl
    have hchars : (badDistance text).message.toList =
        "expected integer, got ".toList ++ '"' :: (text ++ '"' :: []) := by simp [hmessage]
    have hnames : namesSyntax "expected integer, got ".toList = false := by decide +kernel
    rw [hchars, hquote, hquote, hnames, hnone, Bool.false_or, Bool.or_false, saysSyntax]
  | unknownDirective name =>
    have hmessage : (unknownDirective name).message =
        "unknown special query: " ++ String.ofList name := rfl
    have hchars : (unknownDirective name).message.toList =
        "unknown special query:".toList ++ ' ' :: name := by simp [hmessage]
    have hnames : namesSyntax "unknown special query:".toList = false := by decide +kernel
    rw [hchars, hspace, hnames, Bool.false_or, saysSyntax]
  | tooNested => decide +kernel
  | tooLarge => decide +kernel

end FullText.QueryError

theorem Fault.blamesQuery_query (e : FullText.QueryError) :
    (Fault.store (.query e)).blamesQuery = e.saysSyntax := by
  rw [← e.namesSyntax_message]
  simp only [Fault.blamesQuery, Fault.isOperational, Bool.true_and, Text.contains, Text.lower,
    String.toList_ofList]
  rfl

section Outcome

variable {h h' : Host} {root p : Path} {v : ServerVersion} {d : Database} {c : Catalogue}
  {e : FullText.QueryError} {query : String}

theorem searchProblem_of_not_saysSyntax (he : e.saysSyntax = false) (localized : Bool) :
    searchProblem (.store (.query e)) localized = return ⟨"db", .str e.message, []⟩ := by
  rw [searchProblem, Fault.blamesQuery_query, he]
  rfl

theorem searchProblem_of_saysSyntax (he : e.saysSyntax) {localized : Bool} {hint : Json}
    (hhint : (messageOr localized "cli.query.fts5_help" []
      "Use a single word or quoted phrase. Multiple terms: term1 AND term2.").outcome h =
        (.ok hint, h')) :
    (searchProblem (.store (.query e)) localized).outcome h =
      (.ok ⟨"fts5_syntax", .str e.message, [("hint", hint)]⟩, h') := by
  rw [searchProblem, Fault.blamesQuery_query, he, if_pos rfl]
  exact bind_of_ok hhint

/-- A query that cannot be read is refused, however many rows are asked for, of whatever package
and kind, and whether or not they are put together by class. -/
theorem Database.search_of_problem (hreadable : d.isReadable) (hapi : d.api = some c)
    (hquery : strip query ≠ "") {n : Int} (hn : 1 ≤ n ∧ n ≤ 500)
    (hproblem : entryScheme.problem? (prepare query).toList = some e)
    (package kind : Option String) (onePerClass : Bool) :
    d.search (.asking query (.int n) package kind onePerClass) = .error (.store (.query e)) := by
  have hhits : ∀ m : Int, 1 ≤ m → m ≤ 10000 →
      d.hits query (.int m) (.ofTexts (package.getD "") (kind.getD "")) =
        .error (.store (.query e)) := by
    intro m hm hm'
    apply hits_of_problem hreadable hapi hquery _ _ hproblem
    · simp [Cell.fits]
      omega
    · omega
  rw [search_eq hquery]
  cases onePerClass with
  | false =>
    rw [hhits n (by omega) (by omega)]
    rfl
  | true =>
    have htimes : (Json.int n).times hitsPerClass = .ok (.int (n * hitsPerClass)) := rfl
    rw [htimes]
    simp only [bind, Except.bind, if_true]
    rw [hhits (n * hitsPerClass) (by simp [hitsPerClass]; omega) (by simp [hitsPerClass]; omega)]

theorem searchCatalogue_of_problem (hplace : (Layout.catalogue root v.name).outcome h = (.ok p, h))
    (hstores : h.Stores p d) (hreadable : d.isReadable) (hapi : d.api = some c)
    (hquery : prepare query ≠ "")
    (hproblem : entryScheme.problem? (prepare (prepare query)).toList = some e)
    (n : Int) (package kind : Option String) (onePerClass localized : Bool) :
    (searchCatalogue (some root) v (.asking query (.int n) package kind onePerClass)
        localized).outcome h =
      (do return .error (← searchProblem (.store (.query e)) localized) :
        Action (Except Problem (List Json))).outcome h := by
  have hlimit : 1 ≤ clamp 1 500 n ∧ clamp 1 500 n ≤ 500 := by
    unfold clamp
    omega
  rw [← strip_prepare] at hquery
  have hfails := Database.search_of_problem hreadable hapi hquery hlimit hproblem package kind
    onePerClass
  have hrequest : (SearchRequest.asking query (.int n) package kind onePerClass).query =
      .str query := rfl
  have hclamp : (SearchRequest.asking query (.int n) package kind onePerClass).limit.clamp 1 500 =
      .ok (.int (clamp 1 500 n)) := rfl
  have houtcome := searchCatalogue_outcome_of_request hplace hstores hrequest hclamp hfails
  exact houtcome localized

end Outcome

/-- After a successful run, a query that the database cannot read is always answered by a problem,
which is one of syntax exactly where the message of the database speaks of syntax. -/
theorem searchCatalogue_malformed {root : Path} {v : ServerVersion} {h h' : Host}
    {stats : Nat × Nat × Nat} {dir database : Path}
    (hindex : (indexVersion root v.name).outcome h = (.ok (.ok stats), h'))
    (hdir : (Layout.sources root v.name).outcome h = (.ok dir, h))
    (hdatabase : (Layout.catalogue root v.name).outcome h = (.ok database, h))
    (hplace : (Layout.catalogue root v.name).outcome h' = (.ok database, h'))
    {query : String} (hquery : Text.strip query ≠ "") {e : FullText.QueryError}
    (hmalformed : entryScheme.problem? (Query.prepareTwice query).toList = some e)
    (n : Int) (package kind : Option String) (onePerClass localized : Bool) :
    (e.saysSyntax = true → ∀ hint h'',
      (messageOr localized "cli.query.fts5_help" []
        "Use a single word or quoted phrase. Multiple terms: term1 AND term2.").outcome h' =
          (.ok hint, h'') →
      (searchCatalogue (some root) v (.asking query (.int n) package kind onePerClass)
          localized).outcome h' =
        (.ok (.error ⟨"fts5_syntax", .str e.message, [("hint", hint)]⟩), h'')) ∧
    (e.saysSyntax = false →
      (searchCatalogue (some root) v (.asking query (.int n) package kind onePerClass)
          localized).outcome h' =
        (.ok (.error ⟨"db", .str e.message, []⟩), h')) := by
  obtain ⟨c, d, -, hreadable, hapi, -, hstores⟩ := indexVersion_joins hindex hdir hdatabase
  rw [Ne, ← Query.prepare_eq_empty_iff] at hquery
  rw [Query.prepareTwice, Query.strip_prepare] at hmalformed
  have houtcome := searchCatalogue_of_problem hplace hstores hreadable hapi hquery hmalformed n
    package kind onePerClass localized
  constructor
  · intro hsays hint h'' hhint
    rw [houtcome]
    exact bind_of_ok (searchProblem_of_saysSyntax hsays hhint)
  · intro hsays
    simp only [houtcome, searchProblem_of_not_saysSyntax hsays]
    rfl

/-- In a small workspace, a lone quotation mark is answered as if the database were at fault. -/
theorem searchCatalogue_malformed_smallWorkspace :
    ∃ h', (indexVersion (.absolute ["w"]) "release").outcome smallWorkspace =
        (.ok (.ok (1, 1, 0)), h') ∧
      entryScheme.problem? (Query.prepareTwice "\"").toList = some .unterminated ∧
      (searchCatalogue (some (.absolute ["w"])) .release
          (.asking "\"" (.int 30) none none false) false).outcome h' =
        (.ok (.error ⟨"db", .str "unterminated string", []⟩), h') := by
  obtain ⟨h', hindex⟩ := indexVersion_smallWorkspace
  have houtput : Layout.OutputIsThere smallWorkspace := by
    intro s hs
    exact nomatch hs
  have hplace := Layout.catalogue_of_indexed hindex catalogue_smallWorkspace houtput
  have hmalformed :
      entryScheme.problem? (Query.prepareTwice "\"").toList = some .unterminated := by
    decide +kernel
  have hanswer := searchCatalogue_malformed (v := .release) hindex sources_smallWorkspace
    catalogue_smallWorkspace hplace (by decide +kernel) hmalformed 30 none none false false
  exact ⟨h', hindex, hmalformed, hanswer.2 rfl⟩

end JarAtlas
