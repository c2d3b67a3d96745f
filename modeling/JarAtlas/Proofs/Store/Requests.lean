import JarAtlas.Proofs.Catalogue.Indexing

/-!
Requests to a database whose values are texts and whole numbers, as most callers give them. A search
answers with the entries that were asked for unless the number of rows is too large for the
database, the query cannot be read, or entries would have to be compared with an overlong pattern.
-/

open List

namespace JarAtlas

open SearchRequest Query Text Json Hit Catalogue

theorem Json.givenText_str (s : String) : (str s).givenText = .ok s := by
  by_cases hs : s = ""
  · subst hs
    rfl
  · simp [givenText, isGiven, hs, asText]

theorem Json.givenText_ofText? (s : Option String) :
    (ofText? s).givenText = .ok (s.getD "") := by
  cases s with
  | none => rfl
  | some s => exact givenText_str s

theorem asksFor_of_blank {query : String} (hblank : strip query = "")
    (scheme : FullText.Scheme) (doc : FullText.Doc) :
    scheme.asksFor (prepare query).toList doc = false := by
  have hempty : prepare query = "" := by
    rw [prepare, prepareChars, terms_eq_nil_iff_strip.mpr hblank]
    rfl
  rw [hempty]
  rfl

/-- A search can be answered: its query is blank, or the number of rows fits and, unless it is zero,
the query can be read and no entry has to be compared with an overlong pattern. -/
def Catalogue.Answers (c : Catalogue) (query : String) (n : Int) (f : SearchFilter) : Prop :=
  Text.strip query = "" ∨ Cell.fits n = true ∧ (n = 0 ∨
    entryScheme.problem? (Query.prepare query).toList = none ∧
      ∀ p ∈ f.package, isOverlong (belowPattern p) = true →
        ∀ e ∈ c.asked query { f with package := none }, e.package = .text p)

/-- The request for a query among the entries of a package and a kind. -/
def SearchRequest.asking (query : String) (limit : Json) (package kind : Option String)
    (onePerClass : Bool) : SearchRequest where
  query := .str query
  limit := limit
  package := .ofText? package
  kind := .ofText? kind
  onePerClass := onePerClass

namespace Database

theorem search_eq_of_prepare_eq {q₁ q₂ : String}
    (hblank : (strip q₁ == "") = (strip q₂ == ""))
    (hsame : prepare q₁ = prepare q₂) (d : Database) (r : SearchRequest) :
    d.search { r with query := .str q₁ } = d.search { r with query := .str q₂ } := by
  have hhits : d.hits q₁ = d.hits q₂ := by
    funext limit f
    rw [hits, hblank, hsame, ← hits]
  have hfilter : filter { r with query := .str q₁ } =
      filter { r with query := .str q₂ } := rfl
  simp only [search, givenText_str, bind, Except.bind, hfilter, hhits, hblank]

theorem rowLimit_int (position : Nat) (n : Int) :
    rowLimit position (.int n) =
      if Cell.fits n then .ok (if n < 0 then none else some n.toNat) else .error .tooLarge := by
  rw [rowLimit, Cell.ofJson]
  split <;> rfl

variable {d : Database} {c : Catalogue} {query : String} {n : Int} {f : SearchFilter}

theorem hits_of_blank (hblank : strip query = "") (limit : Json) :
    d.hits query limit f = .ok [] := by
  simp only [hits, hblank, beq_self_eq_true, if_true]
  rfl

theorem forM_guardPattern_eq {package : Option String} {isCompared : String → Bool} :
    (package.forM fun p => guardPattern (belowPattern p) (isCompared p)) =
      if package.any fun p => isOverlong (belowPattern p) && isCompared p then
        .error (.store .patternTooLong)
      else .ok () := by
  cases package <;> rfl

theorem entries_kept_perm {found : List Hit}
    (hperm : (found.map entry).Perm ((c.entries.map Entry.toEntryFields).filter fun e =>
      entryScheme.asksFor (prepare query).toList (entryScheme.doc e.texts)))
    (f : SearchFilter) :
    ((found.filter f.fitsKind).map entry).Perm (c.asked query { f with package := none }) ∧
      (((found.filter f.fitsKind).filter f.fitsPackage).map entry).Perm
        (c.asked query f) := by
  have hfilter (g : SearchFilter) :
      ((found.filter fun h => g.fits h.entry).map entry).Perm (c.asked query g) := by
    rw [asked_eq]
    refine List.Perm.trans (List.Perm.of_eq ?_) (hperm.filter g.fits)
    rw [filter_map]
    rfl
  have hkind : f.fitsKind = fun h => SearchFilter.fits { f with package := none } h.entry := by
    funext h
    exact (Bool.and_true _).symm
  have hboth : (fun h => f.fitsPackage h && f.fitsKind h) = fun h => f.fits h.entry := by
    funext h
    exact Bool.and_comm _ _
  constructor
  · rw [hkind]
    exact hfilter _
  · rw [filter_filter, hboth]
    exact hfilter f

theorem any_isOverlong_eq_false_iff {kept : List Hit}
    (hkept : (kept.map entry).Perm (c.asked query { f with package := none })) :
    (f.package.any fun p => isOverlong (belowPattern p) &&
        kept.any fun h => h.entry.package != .text p) = false ↔
      ∀ p ∈ f.package, isOverlong (belowPattern p) →
        ∀ e ∈ c.asked query { f with package := none }, e.package = .text p := by
  rw [Option.any_eq_false]
  refine forall₂_congr fun p _ => ?_
  cases isOverlong (belowPattern p) with
  | false => simp
  | true =>
    simp only [Bool.true_and, any_eq_false, bne_iff_ne, not_not, forall_const]
    rw [← forall_mem_map (f := entry) (P := fun e => e.package = .text p)]
    exact ⟨fun hall e he => hall e (hkept.mem_iff.mpr he),
      fun hall e he => hall e (hkept.mem_iff.mp he)⟩

section

variable (hreadable : d.isReadable = true) (hapi : d.api = some c)

include hreadable hapi

theorem catalogue_eq : d.catalogue "api_fts" = .ok c := by
  simp only [catalogue, part, hreadable, hapi]

theorem hits_eq (hquery : strip query ≠ "") (hfits : Cell.fits n) (hn : n ≠ 0) :
    d.hits query (.int n) f = do
      let found ← queryOutcome (c.hits (prepare query))
      let kept := found.filter f.fitsKind
      f.package.forM fun package =>
        guardPattern (belowPattern package) (kept.any fun h => h.entry.package != .text package)
      return takeLimit (if n < 0 then none else some n.toNat) (kept.filter f.fitsPackage) := by
  have hlimit : ((if n < 0 then none else some n.toNat) == some 0) = false := by
    split
    · rfl
    · simp only [beq_eq_false_iff_ne, ne_eq, Option.some.injEq]
      omega
  simp only [hits, beq_eq_false_iff_ne.mpr hquery, catalogue_eq hreadable hapi, rowLimit_int,
    hfits, if_true, bind, Except.bind, hlimit, Bool.false_eq_true, if_false]

theorem hits_of_problem (hquery : strip query ≠ "") (hfits : Cell.fits n) (hn : n ≠ 0)
    {e : FullText.QueryError}
    (hproblem : entryScheme.problem? (prepare query).toList = some e) :
    d.hits query (.int n) f = .error (.store (.query e)) := by
  rw [hits_eq hreadable hapi hquery hfits hn, Catalogue.hits_of_problem hproblem]
  rfl

theorem hits_of_not_fits (hquery : strip query ≠ "") (hfits : Cell.fits n = false) :
    d.hits query (.int n) f = .error .tooLarge := by
  simp only [hits, beq_eq_false_iff_ne.mpr hquery, catalogue_eq hreadable hapi, rowLimit_int, hfits,
    bind, Except.bind, Bool.false_eq_true, if_false]

theorem hits_zero : d.hits query (.int 0) f = .ok [] := by
  have hfits : Cell.fits 0 := by decide
  simp only [hits, catalogue_eq hreadable hapi, rowLimit_int, hfits, if_true]
  split <;> rfl

variable (hkeys : (c.classes.rows.map ClassRow.key).Nodup) (hcovered : c.Covered)

include hkeys hcovered

/-- Where a query can be read and no pattern is in the way, a search gives the first of the entries
that are asked for, each with the path of its class. -/
theorem hits_eq_take (hblank : strip query ≠ "") (hfits : Cell.fits n) (hn : n ≠ 0)
    (hquery : entryScheme.problem? (prepare query).toList = none)
    (hshort : ∀ p ∈ f.package, isOverlong (belowPattern p) →
      ∀ e ∈ c.asked query { f with package := none }, e.package = .text p) :
    ∃ found,
      d.hits query (.int n) f = .ok (takeLimit (if n < 0 then none else some n.toNat) found) ∧
      (∀ h ∈ found, c.Shows h) ∧ (found.map entry).Perm (c.asked query f) := by
  obtain ⟨found, hfound, hshows, hperm⟩ := hits_of_problem?_eq_none hkeys hcovered hquery
  obtain ⟨hkind, hall⟩ := entries_kept_perm hperm f
  have hguard := (any_isOverlong_eq_false_iff hkind).mpr hshort
  refine ⟨(found.filter f.fitsKind).filter f.fitsPackage, ?_, ?_, hall⟩
  · rw [hits_eq hreadable hapi hblank hfits hn, hfound]
    simp only [queryOutcome, bind, Except.bind, forM_guardPattern_eq, hguard, Bool.false_eq_true,
      if_false]
    rfl
  · intro h hh
    exact hshows h (mem_of_mem_filter (mem_of_mem_filter hh))

/-- Where a search can be answered, and as many rows as are asked for are allowed, it gives each
entry that is asked for once, with the path of its class. -/
theorem hits_of_answers
    (hanswers : c.Answers query n f) (hroom : ((c.asked query f).length : Int) ≤ n) :
    ∃ found, d.hits query (.int n) f = .ok found ∧ (∀ h ∈ found, c.Shows h) ∧
      (found.map entry).Perm (c.asked query f) := by
  by_cases hblank : strip query = ""
  · refine ⟨[], hits_of_blank hblank _, by simp, ?_⟩
    simp [asked, asksFor_of_blank hblank]
  · obtain ⟨hfits, hrest⟩ := hanswers.resolve_left hblank
    by_cases hn : n = 0
    · subst hn
      have hnone : c.asked query f = [] := length_eq_zero_iff.mp (by omega)
      exact ⟨[], hits_zero hreadable hapi, by simp, by rw [hnone]; exact List.Perm.refl _⟩
    · obtain ⟨hquery, hshort⟩ := hrest.resolve_left hn
      obtain ⟨found, hfound, hshows, hperm⟩ :=
        hits_eq_take hreadable hapi hkeys hcovered hblank hfits hn hquery hshort
      refine ⟨found, ?_, hshows, hperm⟩
      have hlength := hperm.length_eq
      rw [length_map] at hlength
      rw [hfound, if_neg (by omega), takeLimit, take_of_length_le (by omega)]

theorem hits_of_not_answers
    (hanswers : ¬ c.Answers query n f) : ∃ e, d.hits query (.int n) f = .error e := by
  obtain ⟨hblank, hrest⟩ := not_or.mp hanswers
  cases hfits : Cell.fits n with
  | false => exact ⟨_, hits_of_not_fits hreadable hapi hblank hfits⟩
  | true =>
    obtain ⟨hn, hfails⟩ := not_or.mp fun hsome => hrest ⟨hfits, hsome⟩
    cases hproblem : entryScheme.problem? (prepare query).toList with
    | some e => exact ⟨_, hits_of_problem hreadable hapi hblank hfits hn hproblem⟩
    | none =>
      obtain ⟨found, hfound, -, hperm⟩ := hits_of_problem?_eq_none hkeys hcovered hproblem
      have hguard := mt (any_isOverlong_eq_false_iff (entries_kept_perm hperm f).1).mp
        fun hshort => hfails ⟨hproblem, hshort⟩
      rw [Bool.not_eq_false] at hguard
      rw [hits_eq hreadable hapi hblank hfits hn, hfound]
      simp only [queryOutcome, bind, Except.bind, forM_guardPattern_eq, hguard, if_true]
      exact ⟨_, rfl⟩

theorem entry_mem_asked_of_hits {found : List Hit}
    (hfound : d.hits query (.int n) f = .ok found) {e : EntryFields}
    (he : e ∈ found.map entry) : e ∈ c.asked query f := by
  have hanswers : c.Answers query n f := by
    by_contra hanswers
    obtain ⟨err, herr⟩ := hits_of_not_answers hreadable hapi hkeys hcovered hanswers
    rw [hfound] at herr
    exact nomatch herr
  by_cases hblank : strip query = ""
  · rw [hits_of_blank hblank] at hfound
    cases hfound
    exact absurd he not_mem_nil
  · obtain ⟨hfits, hrest⟩ := hanswers.resolve_left hblank
    by_cases hn : n = 0
    · rw [hn, hits_zero hreadable hapi] at hfound
      cases hfound
      exact absurd he not_mem_nil
    · obtain ⟨hquery, hshort⟩ := hrest.resolve_left hn
      obtain ⟨all, hall, -, hperm⟩ :=
        hits_eq_take hreadable hapi hkeys hcovered hblank hfits hn hquery hshort
      obtain rfl := Except.ok.inj (hall.symm.trans hfound)
      refine hperm.subset (map_subset _ (fun hit hhit => ?_) he)
      unfold takeLimit at hhit
      split at hhit
      · exact mem_of_mem_take hhit
      · exact hhit

end

theorem search_eq (hquery : strip query ≠ "") (d : Database) (limit : Json)
    (package kind : Option String) (onePerClass : Bool) :
    d.search (.asking query limit package kind onePerClass) =
      if onePerClass then do
        let found ← d.hits query (← limit.times hitsPerClass)
          (.ofTexts (package.getD "") (kind.getD ""))
        return (← takeClasses limit (classHits found)).map ClassHit.toJson
      else (d.hits query limit (.ofTexts (package.getD "") (kind.getD ""))).map
        (List.map toJson) := by
  have hfilter : (asking query limit package kind onePerClass).filter =
      .ok (.ofTexts (package.getD "") (kind.getD "")) := by
    rw [SearchRequest.filter, SearchRequest.asking, givenText_ofText?, givenText_ofText?]
    rfl
  simp only [search, hfilter, bind, Except.bind]
  simp only [asking, givenText_str, beq_eq_false_iff_ne.mpr hquery, Bool.false_eq_true, if_false]
  cases onePerClass with
  | true => rfl
  | false => cases d.hits query limit (.ofTexts (package.getD "") (kind.getD "")) <;> rfl

theorem search_eq_hits (d : Database) (query : String) (limit : Json)
    (package kind : Option String) :
    d.search { query := .str query, limit, package := .ofText? package, kind := .ofText? kind } =
      (d.hits query limit (.ofTexts (package.getD "") (kind.getD ""))).map
        (map toJson) := by
  by_cases hblank : strip query = ""
  · rw [hits_of_blank hblank]
    simp only [search, givenText_str, bind, Except.bind, hblank]
    rfl
  · exact search_eq hblank d limit package kind false

end Database

/-! ### Searching after the catalogue was built -/

open SearchFilter

/-- A catalogue whose entries belong to one class each, with the entries of these types. -/
structure Catalogue.Joins (c : Catalogue) (types : List (String × Java.TypeDecl)) : Prop where
  keys : (c.classes.rows.map ClassRow.key).Nodup
  covered : c.Covered
  entries : c.entries.map Entry.toEntryFields = types.flatMap fun t => t.2.entries

variable {h : Host} {database : Path} {d : Database} {c : Catalogue}
  {types : List (String × Java.TypeDecl)}

theorem indexVersion_joins {root : Path} {version : String} {h' : Host} {stats : Nat × Nat × Nat}
    {dir : Path} (hindex : (indexVersion root version).outcome h = (.ok (.ok stats), h'))
    (hdir : (Layout.sources root version).outcome h = (.ok dir, h))
    (hdatabase : (Layout.catalogue root version).outcome h = (.ok database, h)) :
    ∃ c d, c.Joins (SourceFile.types (SourceFile.below h dir)) ∧ d.isReadable ∧
      d.api = some c ∧ h.Grows h' ∧ h'.Stores database d := by
  obtain ⟨writer, d, hdone⟩ := indexed_of_indexVersion hindex hdir hdatabase
  obtain ⟨hcovered, hentries⟩ := Writer.addTypes_covered hdone.adds
  exact ⟨writer.catalogue, d, ⟨hdone.sound.catalogue.keys, hcovered, hentries⟩, hdone.readable,
    hdone.api, hdone.grows, hdone.stores⟩

def SearchFilter.given (package kind : Option String) : SearchFilter :=
  .ofTexts (package.getD "") (kind.getD "")

/-- Searches the database at a path for a text, for at most `n` entries of a package and a kind. -/
def Action.searchEntries (database : Path) (query : String) (n : Int)
    (package kind : Option String) : Action (List Json) :=
  queryDatabase database fun d => d.search
    { query := .str query, limit := .int n, package := .ofText? package, kind := .ofText? kind }

theorem Action.searchEntries_outcome (hstores : h.Stores database d) (query : String) (n : Int)
    (package kind : Option String) :
    (searchEntries database query n package kind).outcome h =
      ((d.hits query (.int n) (.given package kind)).map (map toJson), h) := by
  rw [searchEntries, queryDatabase_outcome hstores, Database.search_eq_hits]
  rfl

theorem Catalogue.Joins.asked_eq (hjoins : c.Joins types) (query : String) (f : SearchFilter) :
    c.asked query f = (types.flatMap fun t => t.2.entries).filter fun e =>
      entryScheme.asksFor (prepare query).toList (entryScheme.doc e.texts) && f.fits e := by
  rw [asked, hjoins.entries]

theorem SearchFilter.given_none : given none none = ⟨none, none⟩ := by
  decide +kernel

theorem SearchFilter.fits_given_none (e : EntryFields) :
    (given none none).fits e := by
  rw [given_none]
  rfl

theorem Catalogue.Joins.hits_perm (hjoins : c.Joins types) (hreadable : d.isReadable)
    (hapi : d.api = some c) {query : String}
    (hproblem : entryScheme.problem? (prepare query).toList = none)
    (hfew : (types.flatMap fun t => t.2.entries).countP (fun e =>
      entryScheme.asksFor (prepare query).toList (entryScheme.doc e.texts)) ≤ 500) :
    ∃ found, d.hits query (.int 500) (.given none none) = .ok found ∧
      (found.map entry).Perm ((types.flatMap fun t => t.2.entries).filter fun e =>
        entryScheme.asksFor (prepare query).toList (entryScheme.doc e.texts)) := by
  have hasked : c.asked query (.given none none) =
      (types.flatMap fun t => t.2.entries).filter fun e =>
        entryScheme.asksFor (prepare query).toList (entryScheme.doc e.texts) := by
    rw [hjoins.asked_eq]
    simp only [fits_given_none, Bool.and_true]
  have hanswers : c.Answers query 500 (.given none none) := by
    refine .inr ⟨by decide, .inr ⟨hproblem, fun p hp => ?_⟩⟩
    rw [given_none] at hp
    exact nomatch hp
  have hroom : ((c.asked query (.given none none)).length : Int) ≤ 500 := by
    rw [hasked, ← countP_eq_length_filter]
    omega
  obtain ⟨found, hfound, -, hperm⟩ :=
    Database.hits_of_answers hreadable hapi hjoins.keys hjoins.covered hanswers hroom
  rw [hasked] at hperm
  exact ⟨found, hfound, hperm⟩

end JarAtlas
