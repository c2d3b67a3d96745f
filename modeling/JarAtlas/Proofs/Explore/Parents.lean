import JarAtlas.Explore.Hierarchy
import JarAtlas.Proofs.Explore.Search

/-!
What is kept as the parent of a class, and what becomes of it as a query. The text is cut out of the
header of the class, so it has the characters of a clause: word characters, dots, commas, angle
brackets and blanks. Without a dot it is refused as a query if it has a comma or an angle bracket,
and it can be read if it has neither and none of its words is an operator.
-/

open List

namespace JarAtlas

open Text Query FullText

/-! ### The texts of clauses -/

namespace Java

section Clause

variable {β : Type} {next : List Char → Option β} {b : β} {text : List Char}

theorem isClauseChar_of_shortestClause? {done cs : List Char}
    (hread : shortestClause? next done cs = some (text, b))
    (hdone : ∀ c ∈ done, isClauseChar c) : ∀ c ∈ text, isClauseChar c := by
  induction cs generalizing done with
  | nil => cases hread
  | cons d cs ih =>
    rw [shortestClause?] at hread
    split at hread
    · next hd =>
      have hmore : ∀ c ∈ d :: done, isClauseChar c := forall_mem_cons.mpr ⟨hd, hdone⟩
      split at hread
      · cases hread
        exact fun c hc => hmore c (mem_reverse.mp hc)
      · exact ih hread hmore
    · cases hread

theorem isClauseChar_of_clause? {word cs : List Char}
    (hread : clause? word next cs = some (text, b)) : ∀ c ∈ text, isClauseChar c := by
  simp only [clause?, Option.bind_eq_bind, Option.bind_eq_some_iff] at hread
  obtain ⟨_, -, rest, -, hfound⟩ := hread
  obtain ⟨n, -, hn⟩ := exists_of_findSome?_eq_some hfound
  exact isClauseChar_of_shortestClause? hn (by simp)

end Clause

theorem header_extends {cs rest : List Char} {hd : Header} (hread : header cs = some (hd, rest)) :
    ∀ text ∈ hd.extendsText, ∀ c ∈ text, isClauseChar c := by
  simp only [header, Option.bind_eq_bind, Option.bind_eq_some_iff, Option.pure_def,
    Option.some.injEq, Prod.mk.injEq] at hread
  obtain ⟨_, -, _, -, ⟨_, _⟩, -, _, -, ⟨_, _⟩, -, ⟨found, _, _⟩, hclauses, rfl, -⟩ := hread
  intro text htext
  unfold clausesAndBrace? at hclauses
  split at hclauses
  · next clause _ _ hclause =>
    have hsame : some clause = found := (Prod.mk.inj (Option.some.inj hclauses)).1
    rw [← hsame] at htext
    exact Option.some.inj htext ▸ isClauseChar_of_clause? hclause
  · obtain ⟨_, -, hnone⟩ := Option.map_eq_some_iff.mp hclauses
    rw [← (Prod.mk.inj hnone).1] at htext
    cases htext

theorem mem_of_mem_dropTypeArguments {cs : List Char} {c : Char} (hc : c ∈ dropTypeArguments cs) :
    c ∈ cs := by
  have hgo (skip : Nat) (done cs : List Char) (hmem : c ∈ dropTypeArguments.go skip done cs) :
      c ∈ done ∨ c ∈ cs := by
    fun_induction dropTypeArguments.go skip done cs with grind
  rcases hgo 0 [] cs hc with hnone | hcs
  · cases hnone
  · exact hcs

/-- A text that may be kept as the parent of a class. -/
structure IsParentText (text : String) : Prop where
  chars : ∀ c ∈ text.toList, isClauseChar c = true
  strip : Text.strip text = text

theorem isParentText_of_mem_extract {source : String} {d : TypeDecl} (hd : d ∈ extract source) :
    ∀ text ∈ d.parent, IsParentText text := by
  intro text htext
  simp only [extract, extractChars] at hd
  split at hd
  · simp at hd
  · obtain ⟨m, hm, rfl⟩ := mem_map.mp hd
    obtain ⟨_, _, -, -, hheader, -⟩ := isMatch_of_mem_scanFrom endsWith_header hm
    obtain ⟨clause, hclause, rfl⟩ := Option.map_eq_some_iff.mp htext
    constructor
    · intro c hc
      rw [String.toList_ofList] at hc
      exact header_extends hheader clause hclause c (mem_of_mem_trimBy
        (mem_of_mem_dropTypeArguments (mem_of_mem_trimBy hc)))
    · rw [strip, String.toList_ofList, clauseNames]
      exact congrArg String.ofList (trimBy_trimBy _ _)

end Java

/-! ### Clauses without dots as queries -/

/-- The characters of clauses that stand for nothing in a query, outside quotes. -/
def clauseMarks : List Char :=
  ['<', '>', ',']

/-- Whether a term has only word characters and marks of clauses. -/
def isClauseTerm (t : List Char) : Bool :=
  t.all fun c => Text.isWord c || clauseMarks.contains c

variable {m : Char} {t : List Char} {ts : List (List Char)}

theorem isBlocked_clauseMark (hm : m ∈ clauseMarks) (rest : List Char) :
    isBlocked (lexFrom (m :: rest)) := by
  simp only [clauseMarks, mem_cons, not_mem_nil, or_false] at hm
  rcases hm with rfl | rfl | rfl
  · rw [lexFrom_broken (by decide) (by decide) (by decide) (by decide)]
    rfl
  · rw [lexFrom_broken (by decide) (by decide) (by decide) (by decide)]
    rfl
  · rw [lexFrom_mark (by decide) (by decide)]
    rfl

theorem isBareChar_clauseMark (hm : m ∈ clauseMarks) : isBareChar m = false := by
  revert m
  decide

theorem isBlocked_lexFrom_term (ht : isClauseTerm t) (hmark : ∃ m ∈ clauseMarks, m ∈ t)
    (rest : List Char) : isBlocked (lexFrom (t ++ rest)) := by
  have hwhole : t.takeWhile isWord ++ t.dropWhile isWord = t := takeWhile_append_dropWhile
  cases hafter : t.dropWhile isWord with
  | nil =>
    obtain ⟨m, hm, hmem⟩ := hmark
    have hword := dropWhile_eq_nil_iff.mp hafter m hmem
    have hnone : ∀ d ∈ clauseMarks, isWord d = false := by decide
    rw [hnone m hm] at hword
    cases hword
  | cons m after =>
    have hword : isWord m = false := by
      have hfirst := head?_dropWhile_not isWord t
      rw [hafter] at hfirst
      exact hfirst
    have hm : m ∈ clauseMarks := by
      have hmem : m ∈ t := by
        rw [← hwhole, hafter]
        exact mem_append_right _ mem_cons_self
      have hall := all_eq_true.mp ht m hmem
      rw [hword, Bool.false_or] at hall
      exact contains_iff_mem.mp hall
    have hblocked := isBlocked_clauseMark hm (after ++ rest)
    rw [← hwhole, hafter, append_assoc, cons_append]
    by_cases hempty : t.takeWhile isWord = []
    · rw [hempty]
      exact hblocked
    · have hname : Java.IsName (t.takeWhile isWord) := ⟨hempty, fun c hc => mem_takeWhile_imp hc⟩
      rw [hname.lexFrom_append (by simpa using isBareChar_clauseMark hm),
        isBlocked_wordLexeme, hblocked]

theorem isBareChar_head_written (ts : List (List Char)) :
    ∀ c ∈ (written ts).head?, isBareChar c = false := by
  cases ts with
  | nil => simp
  | cons t ts => simp; decide

theorem isName_of_isClauseTerm (hne : t ≠ []) (ht : isClauseTerm t)
    (hmarks : ∀ m ∈ clauseMarks, m ∉ t) : Java.IsName t := by
  refine ⟨hne, fun c hc => ?_⟩
  rcases Bool.or_eq_true_iff.mp (all_eq_true.mp ht c hc) with hword | hmark
  · exact hword
  · exact absurd hc (hmarks c (contains_iff_mem.mp hmark))

theorem isBlocked_written (hts : ∀ t ∈ ts, t ≠ [] ∧ isClauseTerm t)
    (hmark : ∃ t ∈ ts, ∃ m ∈ clauseMarks, m ∈ t) : isBlocked (lexFrom (written ts)) := by
  induction ts with
  | nil => simp at hmark
  | cons t ts ih =>
    obtain ⟨⟨hne, ht⟩, hts⟩ := forall_mem_cons.mp hts
    rw [written_cons, lexFrom_blank (by decide)]
    by_cases hmarked : ∃ m ∈ clauseMarks, m ∈ t
    · exact isBlocked_lexFrom_term ht hmarked _
    · have hname : Java.IsName t :=
        isName_of_isClauseTerm hne ht fun m hm hmem => hmarked ⟨m, hm, hmem⟩
      obtain ⟨u, hu, hwith⟩ := hmark
      have hrest : u ∈ ts := (mem_cons.mp hu).resolve_left fun hsame =>
        hmarked (hsame ▸ hwith)
      rw [hname.lexFrom_append (isBareChar_head_written ts), isBlocked_wordLexeme]
      exact ih hts ⟨u, hrest, hwith⟩

theorem lexFrom_written (hts : ∀ t ∈ ts, Java.IsName t) :
    lexFrom (written ts) = ts.map wordLexeme ++ [.stop] := by
  induction ts with
  | nil => rfl
  | cons t ts ih =>
    obtain ⟨ht, hts⟩ := forall_mem_cons.mp hts
    rw [written_cons, lexFrom_blank (by decide),
      ht.lexFrom_append (isBareChar_head_written ts), ih hts]
    rfl

section Query

variable {text : String} (htext : Java.IsParentText text) (hdot : '.' ∉ text.toList)

include htext hdot

theorem isClauseTerm_of_mem_terms : ∀ t ∈ terms text.toList,
    t ≠ [] ∧ isClauseTerm t := by
  intro t ht
  have hchars : ∀ c ∈ t, c ∈ text.toList := fun c hc =>
    (divides_terms text.toList).mem_of_mem ht hc
  cases (areTerms_terms text.toList).each t ht with
  | phrase hs =>
    have hquote := htext.chars '"' (hchars '"' mem_cons_self)
    exact absurd hquote (by decide)
  | run hne hsolid _ =>
    refine ⟨hne, all_eq_true.mpr fun c hc => ?_⟩
    have hclause := htext.chars c (hchars c hc)
    have hother : c ≠ '.' := fun hsame => hdot (hsame ▸ hchars c hc)
    simp only [Java.isClauseChar, hsolid c hc, Bool.or_eq_true, beq_iff_eq, hother] at hclause
    simp only [clauseMarks, contains_eq_mem, mem_cons, not_mem_nil, or_false,
      Bool.or_eq_true, decide_eq_true_eq]
    tauto

/-- Preparing such a text puts one space between its terms and changes nothing else. -/
theorem prepareChars_parentText :
    prepareChars text.toList = [' '].intercalate (terms text.toList) := by
  have hplain (t : List Char) (ht : t ∈ terms text.toList) : prepareTerm t = t := by
    refine prepareTerm_of_isPlain ?_
    have hnone : ∀ d ∈ ['.', '/', ':', '-'], (isWord d || clauseMarks.contains d) = false := by
      decide
    rw [isPlain, Bool.not_eq_true', any_eq_false]
    intro c hc hspecial
    have hchar := all_eq_true.mp (isClauseTerm_of_mem_terms htext hdot t ht).2 c hc
    rw [hnone c (by simpa [or_assoc] using hspecial)] at hchar
    cases hchar
  rw [prepareChars, map_congr_left hplain, map_id']

theorem isClauseChar_prepare : ∀ c ∈ (prepare text).toList, Java.isClauseChar c := by
  intro c hc
  rw [prepare, String.toList_ofList, prepareChars_parentText htext hdot] at hc
  have hne : terms text.toList ≠ [] := by
    intro hnone
    rw [hnone] at hc
    cases hc
  have hmem : c ∈ written (terms text.toList) := by
    rw [written_eq_cons hne]
    exact mem_cons_of_mem _ hc
  obtain ⟨t, ht, hct⟩ := mem_flatMap.mp hmem
  rcases mem_cons.mp hct with rfl | hct
  · decide
  · exact htext.chars c ((divides_terms text.toList).mem_of_mem ht hct)

theorem lexemes_prepare (hne : terms text.toList ≠ []) :
    lexemes (prepare text).toList = lexFrom (written (terms text.toList)) := by
  have hnull : ∀ c ∈ (prepare text).toList, c.toNat ≠ 0 := by
    intro c hc hzero
    have hclause := isClauseChar_prepare htext hdot c hc
    rw [← Char.ofNat_toNat c, hzero] at hclause
    exact absurd hclause (by decide)
  rw [lexemes_eq hnull, written_eq_cons hne, lexFrom_blank (by decide),
    prepare, String.toList_ofList, prepareChars_parentText htext hdot]

theorem head?_prepare_ne_star : (prepare text).toList.head? ≠ some '*' := by
  intro hhead
  have hclause := isClauseChar_prepare htext hdot '*' (mem_of_mem_head? hhead)
  exact absurd hclause (by decide)

theorem problem?_of_clauseMark (hmark : ∃ m ∈ clauseMarks, m ∈ text.toList) :
    ∃ e, entryScheme.problem? (prepare text).toList = some e := by
  have hterm : ∃ t ∈ terms text.toList, ∃ m ∈ clauseMarks, m ∈ t := by
    obtain ⟨m, hm, hmem⟩ := hmark
    have hsolid : ∀ d ∈ clauseMarks, isBlank d = false := by decide
    obtain ⟨t, ht, hmt⟩ := (divides_terms text.toList).exists_term hmem (hsolid m hm)
    exact ⟨t, ht, m, hm, hmt⟩
  have hne : terms text.toList ≠ [] := by
    obtain ⟨t, ht, -⟩ := hterm
    exact ne_nil_of_mem ht
  have hblocked := isBlocked_written (isClauseTerm_of_mem_terms htext hdot) hterm
  rw [← lexemes_prepare htext hdot hne] at hblocked
  obtain ⟨e, hparse⟩ := parse_of_isBlocked entryScheme hblocked
  exact ⟨e, Scheme.problem?_of_parse_error (head?_prepare_ne_star htext hdot) hparse⟩

theorem problem?_of_words (hblank : strip text ≠ "") (hmarks : ∀ m ∈ clauseMarks, m ∉ text.toList)
    (hwords : ∀ t ∈ terms text.toList, t ∉ operators) :
    entryScheme.problem? (prepare text).toList = none := by
  have hterms : terms text.toList ≠ [] := by
    rwa [Ne, terms_eq_nil_iff_strip]
  have hnames : ∀ t ∈ terms text.toList, Java.IsName t := by
    intro t ht
    obtain ⟨hsome, hterm⟩ := isClauseTerm_of_mem_terms htext hdot t ht
    refine isName_of_isClauseTerm hsome hterm fun m hm hmem => hmarks m hm ?_
    exact (divides_terms text.toList).mem_of_mem ht hmem
  have hlexemes : lexemes (prepare text).toList = textLexemes (terms text.toList) := by
    rw [lexemes_prepare htext hdot hterms, lexFrom_written hnames, textLexemes,
      map_congr_left fun t ht => wordLexeme_eq (hwords t ht)]
  obtain ⟨e, hparse⟩ := parse_texts entryScheme hterms hlexemes
  exact Scheme.problem?_of_parse (head?_prepare_ne_star htext hdot) hparse

end Query

/-! ### Looking up the parent of a class -/

open Except Hierarchy Catalogue Database ClassRow Writer

open JarAtlas.Action

def ClassRow.IsExtracted (row : ClassRow) : Prop :=
  ∃ source path, ∃ decl ∈ Java.extract source, row = decl.classRow path row.id

namespace ClassRow.IsExtracted

variable {row : ClassRow}

theorem isName (hrow : row.IsExtracted) : Java.IsName row.name.toList := by
  obtain ⟨source, path, decl, hdecl, hfrom⟩ := hrow
  rw [hfrom]
  exact (Java.names_of_mem_extract hdecl).2

theorem strip_key (hrow : row.IsExtracted) :
    strip row.package = row.package ∧ strip row.name = row.name := by
  obtain ⟨source, path, decl, hdecl, hfrom⟩ := hrow
  rw [hfrom]
  exact Java.strip_key_of_mem_extract hdecl

theorem isParentText (hrow : row.IsExtracted) : ∀ text ∈ row.parent, Java.IsParentText text := by
  obtain ⟨source, path, decl, hdecl, hfrom⟩ := hrow
  rw [hfrom]
  exact Java.isParentText_of_mem_extract hdecl

end ClassRow.IsExtracted

def ClassRow.parentText? (row : ClassRow) : Option String :=
  row.parent.filter (· != "")

theorem ClassRow.parentText?_eq_some {row : ClassRow} {text : String}
    (htext : row.parentText? = some text) : text ∈ row.parent ∧ text ≠ "" := by
  obtain ⟨hsome, hne⟩ := Option.filter_eq_some_iff.mp htext
  exact ⟨hsome, by simpa using hne⟩

/-- Why the parent of a class cannot be looked up: its text has no dot, is no class of the same
package and is refused as a query. -/
def Catalogue.refusal? (c : Catalogue) (row : ClassRow) : Option FullText.QueryError := do
  let text ← row.parentText?
  if text.toList.contains '.' || (c.findClass? row.package text).isSome then none
  else entryScheme.problem? (Query.prepare text).toList

/-- The catalogue of a database, all of whose classes were found in source files. -/
structure Database.Indexes (d : Database) (c : Catalogue) : Prop where
  readable : d.isReadable = true
  api : d.api = some c
  keys : (c.classes.rows.map ClassRow.key).Nodup
  covered : c.Covered
  extracted : ∀ row ∈ c.classes.rows, row.IsExtracted

/-- Every class has the entry of its type. -/
def Catalogue.Listed (c : Catalogue) : Prop :=
  ∀ row ∈ c.classes.rows, ∃ decl : Java.TypeDecl, decl.key = row.key ∧
    decl.entry ∈ c.entries.map Entry.toEntryFields

/-- A successful run leaves such a catalogue in the database of the version, with an entry for each
class. -/
theorem Host.Indexed.indexes {h h' : Host} {dir database : Path} {writer : Writer} {d : Database}
    (hdone : h.Indexed h' dir database writer d) :
    d.Indexes writer.catalogue ∧ writer.catalogue.Listed := by
  obtain ⟨hcovered, hentries⟩ := addTypes_covered hdone.adds
  refine ⟨⟨hdone.readable, hdone.api, hdone.sound.catalogue.keys, hcovered, ?_⟩, ?_⟩
  · intro row hrow
    obtain ⟨t, ht, hfrom⟩ := addTypes_origin hdone.adds row hrow
    obtain ⟨f, -, htypes⟩ := mem_flatMap.mp ht
    obtain ⟨decl, hdecl, rfl⟩ := mem_map.mp htypes
    exact ⟨_, _, decl, hdecl, hfrom⟩
  · intro row hrow
    obtain ⟨t, ht, hfrom⟩ := addTypes_origin hdone.adds row hrow
    refine ⟨t.2, by rw [hfrom]; rfl, ?_⟩
    rw [hentries]
    exact mem_flatMap.mpr ⟨t, ht, mem_cons_self⟩

theorem indexVersion_indexes {root database : Path} {version : String} {h h' : Host}
    {stats : Nat × Nat × Nat}
    (hindex : (indexVersion root version).outcome h = (.ok (.ok stats), h'))
    (hdatabase : (Layout.catalogue root version).outcome h = (.ok database, h)) :
    ∃ c d, d.Indexes c ∧ c.Listed ∧ h'.Stores database d := by
  obtain ⟨dir, database', writer, d, -, hdatabase', hdone⟩ := indexVersion_outcome_ok hindex
  obtain rfl : database' = database := ok_unique hdatabase' hdatabase
  exact ⟨writer.catalogue, d, hdone.indexes.1, hdone.indexes.2, hdone.stores⟩

/-! ### One step up -/

/-- What is looked up is a class of the catalogue, if anything. -/
def Catalogue.HoldsFound (c : Catalogue) (r : Except Fault (Option ClassRow)) : Prop :=
  ∃ found, r = .ok found ∧ ∀ row ∈ found, row ∈ c.classes.rows

theorem Catalogue.map_row_details? (c : Catalogue) (package name : String) :
    (c.details? package name).map (·.row) = c.findClass? package name := by
  rw [details?]
  cases c.findClass? package name <;> rfl

theorem Catalogue.holdsFound_details? (c : Catalogue) (package name : String) :
    c.HoldsFound (.ok ((c.details? package name).map (·.row))) := by
  rw [map_row_details?]
  exact ⟨_, rfl, fun row hrow => mem_of_find?_eq_some hrow⟩

namespace Database

variable {d : Database} {c : Catalogue}

theorem of_catalogue {table : String} (hc : d.catalogue table = .ok c) :
    d.isReadable ∧ d.api = some c := by
  unfold catalogue part at hc
  split at hc
  · cases hc
  · next hreadable hapi =>
    cases hc
    exact ⟨hreadable, hapi⟩
  · cases hc

theorem details_ok {package name : Json} {found : Option ClassDetails}
    (hdetails : d.details package name = .ok found) :
    ∃ c p n, d.isReadable ∧ d.api = some c ∧ package.stripped = .ok p ∧
      name.stripped = .ok n ∧ c.details? p n = found := by
  obtain ⟨p, hp, hrest⟩ := ok_of_bind hdetails
  obtain ⟨n, hn, hrest⟩ := ok_of_bind hrest
  obtain ⟨c, hc, hfound⟩ := ok_of_bind hrest
  obtain ⟨hreadable, hapi⟩ := of_catalogue hc
  exact ⟨c, p, n, hreadable, hapi, hp, hn, ok.inj hfound⟩

variable (hapi : d.api = some c)

include hapi

theorem mem_of_details {package name : Json} {found : Option ClassDetails} {row : ClassRow}
    (hdetails : d.details package name = .ok found) (hrow : found.map (·.row) = some row) :
    row ∈ c.classes.rows := by
  obtain ⟨c', p, n, -, hapi', -, -, rfl⟩ := details_ok hdetails
  obtain rfl : c' = c := Option.some.inj (hapi'.symm.trans hapi)
  rw [map_row_details?] at hrow
  exact mem_of_find?_eq_some hrow

theorem mem_of_parent? {text package : String} {parent : ClassRow}
    (hparent : parent? d text package = .ok (some parent)) :
    parent ∈ c.classes.rows := by
  unfold parent? at hparent
  split at hparent
  · obtain ⟨found, hdetails, hfound⟩ := ok_of_bind hparent
    exact mem_of_details hapi hdetails (ok.inj hfound)
  · obtain ⟨found, hdetails, hrest⟩ := ok_of_bind hparent
    cases found with
    | some found => exact mem_of_details hapi hdetails (ok.inj hrest)
    | none =>
      obtain ⟨hits, -, hrest⟩ := ok_of_bind hrest
      split at hrest
      · cases hrest
      · split at hrest
        · obtain ⟨found, hdetails, hfound⟩ := ok_of_bind hrest
          exact mem_of_details hapi hdetails (ok.inj hfound)
        · cases hrest

end Database

namespace Database.Indexes

variable {d : Database} {c : Catalogue} (hd : d.Indexes c) {package text : String}

include hd

theorem parent?_of_dotted (hdot : '.' ∈ text.toList) :
    c.HoldsFound (parent? d text package) := by
  obtain ⟨outer, last, hparts, hlast⟩ := exists_last_of_mem hdot
  unfold parent?
  rw [hparts, splitLast?_append hlast]
  simp only [details_eq hd.readable hd.api]
  exact c.holdsFound_details? _ _

theorem parent?_of_local (hdot : '.' ∉ text.toList) {found : ClassDetails}
    (hfound : c.details? (strip package) (strip text) = some found) :
    c.HoldsFound (parent? d text package) := by
  have hheld := c.holdsFound_details? (strip package) (strip text)
  rw [hfound] at hheld
  unfold parent?
  rw [splitLast?_eq_none hdot]
  simp only [details_eq hd.readable hd.api, hfound]
  exact hheld

theorem details_of_shows {hit : Hit} (hshows : c.Shows hit) :
    ∃ found, d.details hit.entry.package.toJson hit.entry.className.toJson = .ok found ∧
      found.map (·.row) = c.classOf? hit.entry := by
  obtain ⟨row, hrow, howns, -⟩ := hshows
  obtain ⟨hpackage, hname⟩ := (hd.extracted row hrow).strip_key
  rw [classOf?_eq_some hd.keys hrow howns, howns.1, howns.2]
  refine ⟨_, details_eq hd.readable hd.api _ _, ?_⟩
  rw [map_row_details?, hpackage, hname]
  exact (findClass?_eq_some_iff hd.keys).mpr ⟨hrow, rfl⟩

variable (hdot : '.' ∉ text.toList) (hblank : strip text ≠ "")
  (hnone : c.details? (strip package) (strip text) = none)

include hdot hblank hnone

theorem parent?_of_problem {e : QueryError}
    (hquery : entryScheme.problem? (prepare text).toList = some e) :
    parent? d text package = .error (.store (.query e)) := by
  have hfails : d.hits text (.int 2) {} = .error (.store (.query e)) :=
    hits_of_problem hd.readable hd.api hblank (by decide) (by decide) hquery
  unfold parent?
  rw [splitLast?_eq_none hdot]
  simp only [details_eq hd.readable hd.api, hnone, bind, Except.bind, hfails]

theorem parent?_eq_of_query
    (hquery : entryScheme.problem? (prepare text).toList = none) :
    ∃ found : List Hit, (∀ hit ∈ found, c.Shows hit) ∧
      (found.map Hit.entry).Perm (c.asked text {}) ∧
      parent? d text package = .ok (found.head?.bind fun hit =>
        if meansOne text (found.take 2) then c.classOf? hit.entry else none) := by
  obtain ⟨found, hhits, hshows, hperm⟩ := hits_eq_take (n := 2) (f := {}) hd.readable
    hd.api hd.keys hd.covered hblank (by decide) (by decide) hquery (by simp)
  have hhits : d.hits text (.int 2) {} = .ok (found.take 2) := hhits
  refine ⟨found, hshows, hperm, ?_⟩
  unfold parent?
  rw [splitLast?_eq_none hdot]
  simp only [details_eq hd.readable hd.api, hnone, bind, Except.bind, hhits]
  cases found with
  | nil => rfl
  | cons hit more =>
    obtain ⟨details, hdetails, hclass⟩ := hd.details_of_shows (hshows hit mem_cons_self)
    simp only [take_succ_cons, hdetails, List.head?_cons, Option.bind_some, ← hclass]
    split <;> rfl

theorem parent?_of_query (hquery : entryScheme.problem? (prepare text).toList = none) :
    c.HoldsFound (parent? d text package) := by
  obtain ⟨found, -, -, hparent⟩ := hd.parent?_eq_of_query hdot hblank hnone hquery
  refine ⟨_, hparent, fun row hrow => ?_⟩
  rw [hrow] at hparent
  exact mem_of_parent? hd.api hparent

end Database.Indexes

theorem Catalogue.refusal?_eq {c : Catalogue} {row : ClassRow} {text : String}
    (htext : row.parentText? = some text) :
    c.refusal? row =
      if '.' ∈ text.toList ∨ (c.findClass? row.package text).isSome then none
      else entryScheme.problem? (prepare text).toList := by
  simp [refusal?, htext]

namespace Database.Indexes

variable {d : Database} {c : Catalogue} (hd : d.Indexes c) {row : ClassRow} {text : String}
  (hrow : row ∈ c.classes.rows) (htext : row.parentText? = some text)

include hd hrow htext

theorem isParentText : Java.IsParentText text ∧ strip text ≠ "" := by
  obtain ⟨hmem, hne⟩ := parentText?_eq_some htext
  have hform := (hd.extracted row hrow).isParentText text hmem
  exact ⟨hform, by rwa [hform.strip]⟩

theorem map_row_local : (c.details? (strip row.package) (strip text)).map (·.row) =
    c.findClass? row.package text := by
  rw [c.map_row_details?, (hd.extracted row hrow).strip_key.1,
    (hd.isParentText hrow htext).1.strip]

theorem parent?_cases :
    (∀ e, c.refusal? row = some e →
      parent? d text row.package = .error (.store (.query e))) ∧
    (c.refusal? row = none → c.HoldsFound (parent? d text row.package)) := by
  obtain ⟨-, hblank⟩ := hd.isParentText hrow htext
  by_cases hdot : '.' ∈ text.toList
  · rw [refusal?_eq htext, if_pos (.inl hdot)]
    exact ⟨fun e he => (nomatch he), fun _ => hd.parent?_of_dotted hdot⟩
  · have hlookup := hd.map_row_local hrow htext
    cases hfound : c.details? (strip row.package) (strip text) with
    | some found =>
      rw [hfound] at hlookup
      rw [refusal?_eq htext, if_pos (.inr (by rw [← hlookup]; rfl))]
      exact ⟨fun e he => (nomatch he), fun _ => hd.parent?_of_local hdot hfound⟩
    | none =>
      rw [hfound] at hlookup
      rw [refusal?_eq htext, if_neg (by simp [hdot, ← hlookup])]
      exact ⟨fun e he => hd.parent?_of_problem hdot hblank hfound he,
        fun hquery => hd.parent?_of_query hdot hblank hfound hquery⟩

theorem refusal?_ne_none_of_clauseMark (hdot : '.' ∉ text.toList)
    (hmark : ∃ m ∈ clauseMarks, m ∈ text.toList) : c.refusal? row ≠ none := by
  obtain ⟨e, hproblem⟩ := problem?_of_clauseMark (hd.isParentText hrow htext).1 hdot hmark
  have hnone : c.findClass? row.package text = none := by
    rw [findClass?_eq_none_iff]
    intro other hother hkey
    obtain ⟨m, hm, hmem⟩ := hmark
    have hword : ∀ d ∈ clauseMarks, isWord d = false := by decide
    rw [← (Prod.mk.inj hkey).2] at hmem
    exact (hd.extracted other hother).isName.not_mem_of_isWord (hword m hm) hmem
  rw [refusal?_eq htext, if_neg (by simp [hdot, hnone]), hproblem]
  simp

theorem of_refusal?_ne_none (hrefusal : c.refusal? row ≠ none) : '.' ∉ text.toList ∧
    ((∃ m ∈ clauseMarks, m ∈ text.toList) ∨
      ∃ word ∈ terms text.toList, word ∈ operators) := by
  obtain ⟨hform, hblank⟩ := hd.isParentText hrow htext
  rw [refusal?_eq htext] at hrefusal
  have hsearched : ¬ ('.' ∈ text.toList ∨ (c.findClass? row.package text).isSome) := by
    intro hfound
    exact hrefusal (if_pos hfound)
  rw [if_neg hsearched] at hrefusal
  have hdot : '.' ∉ text.toList := fun hdot => hsearched (.inl hdot)
  refine ⟨hdot, ?_⟩
  by_contra hplain
  obtain ⟨hmarks, hwords⟩ := not_or.mp hplain
  exact hrefusal (problem?_of_words hform hdot hblank (fun m hm hmem => hmarks ⟨m, hm, hmem⟩)
    fun word hword hoperator => hwords ⟨word, hword, hoperator⟩)

end Database.Indexes

/-! ### The names of parents -/

/-- The parent of the class is searched for: its text has no dot and is no class of the same
package. -/
def Catalogue.Searches (c : Catalogue) (row : ClassRow) (text : String) : Prop :=
  '.' ∉ text.toList ∧ c.findClass? row.package text = none

def Hierarchy.simpleName (text : String) : String :=
  match Text.splitLast? '.' text.toList with
  | some (_, last) => Text.strip (String.ofList last)
  | none => text

/-- The parent has the name in the text, and if it was searched for, no other class has this name.
-/
def Catalogue.SoundStep (c : Catalogue) (text : String) (row parent : ClassRow) : Prop :=
  parent.name = Hierarchy.simpleName text ∧
    (c.Searches row text → ∀ other ∈ c.classes.rows, other.name = text → other = parent)

theorem problem?_of_operator {name : List Char} (hname : name ∈ operators) :
    entryScheme.problem? (prepareChars name) ≠ none := by
  have hall : ∀ w ∈ operators, entryScheme.problem? (prepareChars w) ≠ none := by
    decide +kernel
  exact hall name hname

namespace Catalogue

variable {c : Catalogue}

theorem fits_default (e : EntryFields) : SearchFilter.fits {} e :=
  rfl

theorem Listed.exists_asked (hlisted : c.Listed) {row : ClassRow} (hrow : row ∈ c.classes.rows)
    (hname : Java.IsName row.name.toList)
    (hquery : entryScheme.problem? (prepare row.name).toList = none)
    (hsome : c.asked row.name {} ≠ []) : ∃ e ∈ c.asked row.name {}, row.Owns e := by
  have hprepare : (prepare row.name).toList = row.name.toList := by
    rw [prepare, hname.prepareChars_eq, String.ofList_toList]
  have hoperator : row.name.toList ∉ operators := by
    intro hmem
    refine problem?_of_operator hmem ?_
    rw [hname.prepareChars_eq, ← hprepare]
    exact hquery
  obtain ⟨-, hasks⟩ := asksFor_name hname hoperator
  have hmem {e : EntryFields} : e ∈ c.asked row.name {} ↔
      e ∈ c.entries.map Entry.toEntryFields ∧ Mentions (entryScheme.doc e.texts) none
        (wordTokens row.name.toList) := by
    rw [asked, mem_filter, fits_default, Bool.and_true, hprepare, hasks]
  obtain ⟨other, hother⟩ := exists_mem_of_ne_nil _ hsome
  have hwords := (hmem.mp hother).2.1
  obtain ⟨decl, hkey, hentry⟩ := hlisted row hrow
  obtain ⟨hpackage, hsame⟩ := Prod.mk.inj hkey
  refine ⟨decl.entry, hmem.mpr ⟨hentry, ?_⟩, ?_⟩
  · have hsame : decl.name = row.name := hsame
    rw [← hsame] at hwords ⊢
    exact Java.TypeDecl.mentions_name hwords
  · obtain ⟨hentryPackage, hentryName⟩ := Java.TypeDecl.names_of_mem_entries
      (d := decl) mem_cons_self
    exact ⟨hentryPackage.trans (congrArg _ hpackage), hentryName.trans (congrArg _ hsame)⟩

end Catalogue

namespace Database.Indexes

variable {d : Database} {c : Catalogue} (hd : d.Indexes c) {row parent : ClassRow} {text : String}
  (hrow : row ∈ c.classes.rows) (htext : row.parentText? = some text)
  (hfound : parent? d text row.package = .ok (some parent))

include hd hrow htext hfound

theorem owns_of_searches (hsearch : c.Searches row text) :
    entryScheme.problem? (prepare text).toList = none ∧ parent ∈ c.classes.rows ∧
      ∃ e ∈ c.asked text {}, parent.Owns e ∧ (c.asked text {} = [e] ∨ parent.name = text) := by
  obtain ⟨-, hblank⟩ := hd.isParentText hrow htext
  obtain ⟨hdot, hlocal⟩ := hsearch
  have hnone : c.details? (strip row.package) (strip text) = none := by
    rw [← Option.map_eq_none_iff, hd.map_row_local hrow htext, hlocal]
  cases hquery : entryScheme.problem? (prepare text).toList with
  | some e =>
    rw [hd.parent?_of_problem hdot hblank hnone hquery] at hfound
    cases hfound
  | none =>
    obtain ⟨hits, hshows, hperm, hparent⟩ := hd.parent?_eq_of_query hdot hblank hnone hquery
    rw [hfound] at hparent
    obtain ⟨hit, hhit, hclass⟩ := Option.bind_eq_some_iff.mp (ok.inj hparent).symm
    obtain ⟨more, rfl⟩ := head?_eq_some_iff.mp hhit
    split at hclass
    · next hone =>
      obtain ⟨owner, howner, howns, -⟩ := hshows hit mem_cons_self
      rw [classOf?_eq_some hd.keys howner howns] at hclass
      cases hclass
      refine ⟨rfl, howner, hit.entry, hperm.mem_iff.mp mem_cons_self, howns, ?_⟩
      rcases Bool.or_eq_true_iff.mp hone with hlength | hall
      · left
        obtain rfl : more = [] := by
          cases more with
          | nil => rfl
          | cons next more => simp at hlength
        exact perm_singleton.mp hperm.symm
      · right
        have hfirst : hit.entry.className = .text text := by
          simpa using all_eq_true.mp hall hit (by simp)
        rw [howns.2] at hfirst
        exact Cell.text.inj hfirst
    · cases hclass

theorem name_eq_of_searches (hlisted : c.Listed) (hsearch : c.Searches row text)
    {other : ClassRow} (hother : other ∈ c.classes.rows) (hname : other.name = text) :
    parent.name = text := by
  obtain ⟨hquery, -, e, he, howns, halone | hsame⟩ := hd.owns_of_searches hrow htext hfound hsearch
  · subst hname
    obtain ⟨e', he', howns'⟩ := hlisted.exists_asked hother (hd.extracted other hother).isName
      hquery (ne_nil_of_mem he)
    rw [halone, mem_singleton] at he'
    rw [he'] at howns'
    exact Cell.text.inj (howns.2.symm.trans howns'.2)
  · exact hsame

theorem name_eq_of_not_searches (hsearch : ¬ c.Searches row text) :
    parent.name = Hierarchy.simpleName text := by
  unfold parent? at hfound
  unfold Hierarchy.simpleName
  by_cases hdot : '.' ∈ text.toList
  · obtain ⟨outer, last, hparts, hlast⟩ := exists_last_of_mem hdot
    rw [hparts, splitLast?_append hlast] at hfound ⊢
    simp only [details_eq hd.readable hd.api, bind, Except.bind] at hfound
    have hclass := ok.inj hfound
    rw [c.map_row_details?, findClass?_eq_some_iff hd.keys] at hclass
    exact (Prod.mk.inj hclass.2).2
  · have hthere : c.findClass? row.package text ≠ none := fun hnone => hsearch ⟨hdot, hnone⟩
    rw [splitLast?_eq_none hdot] at hfound ⊢
    simp only [details_eq hd.readable hd.api, bind, Except.bind] at hfound
    rw [← hd.map_row_local hrow htext] at hthere
    cases hdetails : c.details? (strip row.package) (strip text) with
    | none => exact absurd (by rw [hdetails]; rfl) hthere
    | some details =>
      have hclass := hd.map_row_local hrow htext
      rw [hdetails] at hfound hclass
      have hsame : c.findClass? row.package text = some parent := hclass.symm.trans (ok.inj hfound)
      exact (Prod.mk.inj ((findClass?_eq_some_iff hd.keys).mp hsame).2).2

theorem soundStep_iff (hlisted : c.Listed) :
    c.SoundStep text row parent ↔
      (c.Searches row text → ∃! other, other ∈ c.classes.rows ∧ other.name = text) := by
  by_cases hsearch : c.Searches row text
  · have hsimple : Hierarchy.simpleName text = text := by
      rw [Hierarchy.simpleName, splitLast?_eq_none hsearch.1]
    obtain ⟨-, hparent, -⟩ := hd.owns_of_searches hrow htext hfound hsearch
    rw [SoundStep, hsimple]
    constructor
    · rintro ⟨hname, hothers⟩ -
      exact ⟨parent, ⟨hparent, hname⟩, fun other hother => hothers hsearch other hother.1 hother.2⟩
    · intro hunique
      obtain ⟨only, ⟨honly, hname⟩, hothers⟩ := hunique hsearch
      have hsame := hd.name_eq_of_searches hrow htext hfound hlisted hsearch honly hname
      refine ⟨hsame, fun _ other hother hother_name => ?_⟩
      rw [hothers other ⟨hother, hother_name⟩, hothers parent ⟨hparent, hsame⟩]
  · exact ⟨fun _ h => absurd h hsearch, fun _ =>
      ⟨hd.name_eq_of_not_searches hrow htext hfound hsearch, fun h => absurd h hsearch⟩⟩

theorem alone_of_name_ne (hlisted : c.Listed) (hsearch : c.Searches row text)
    (hne : parent.name ≠ text) :
    (∀ other ∈ c.classes.rows, other.name ≠ text) ∧
      ∃ e, c.asked text {} = [e] ∧ parent.Owns e := by
  refine ⟨fun other hother hname =>
    hne (hd.name_eq_of_searches hrow htext hfound hlisted hsearch hother hname), ?_⟩
  obtain ⟨-, -, e, -, howns, halone⟩ := hd.owns_of_searches hrow htext hfound hsearch
  exact ⟨e, halone.resolve_right hne, howns⟩

end Database.Indexes

end JarAtlas
