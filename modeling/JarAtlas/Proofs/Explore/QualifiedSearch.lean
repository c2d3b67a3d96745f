import JarAtlas.Proofs.Explore.Search

/-!
Searching for a class by its qualified name: its package, a dot and its name. The database prepares
such a query once and finds the class. A search of the catalogue prepares it before the database
does, and the filter that the name has become does not survive this: it is refused where the package
has dots, and otherwise asks for words that the entry of the class does not have.
-/

open List

namespace JarAtlas

open JarAtlas.Action
open JarAtlas.FullText (wordTokens Mentions)
open JarAtlas.Query (classFilter isQualified)

theorem Cell.toJson_injective : Function.Injective Cell.toJson := by
  intro a b hsame
  cases a <;> cases b <;> simp_all [Cell.toJson]

theorem Hit.toJson_injective : Function.Injective Hit.toJson := by
  rintro ⟨⟨_, _, _, _, _, _, _, _, _⟩, _⟩ ⟨⟨_, _, _, _, _, _, _, _, _⟩, _⟩ hsame
  simpa [Hit.toJson, Cell.toJson_injective.eq_iff, and_assoc] using hsame

section Found

variable {h : Host} {root p : Path} {v : ServerVersion} {d : Database} {c : Catalogue}
  {types : List (String × Java.TypeDecl)} {query : String}

theorem searchCatalogue_outcome_of_error
    (hplace : (Layout.catalogue root v.name).outcome h = (.ok p, h)) (hstores : h.Stores p d)
    {e : Fault} (he : d.search (.forText (Query.prepare query)) = .error e) :
    ∃ problem, (searchProblem e false).outcome h = (.ok problem, h) ∧
      (searchCatalogue (some root) v (.forText query) false).outcome h =
        (.ok (.error problem), h) := by
  have houtcome := searchCatalogue_outcome hplace hstores he false
  have hproblem : ∃ problem, (searchProblem e false).outcome h = (.ok problem, h) := by
    unfold searchProblem
    split
    · exact ⟨_, rfl⟩
    · exact ⟨_, rfl⟩
  obtain ⟨problem, hproblem⟩ := hproblem
  refine ⟨problem, hproblem, houtcome.trans ?_⟩
  exact bind_of_ok hproblem

theorem searchCatalogue_outcome_of_dot
    (hplace : (Layout.catalogue root v.name).outcome h = (.ok p, h)) (hstores : h.Stores p d)
    (hreadable : d.isReadable) (hapi : d.api = some c) (hquery : Query.prepare query ≠ "")
    (hproblem : entryScheme.problem? (Query.prepare (Query.prepare query)).toList =
      some (.unexpected ['.'])) :
    (searchCatalogue (some root) v (.forText query) false).outcome h =
      (.ok (.error ⟨"fts5_syntax", .str "fts5: syntax error near \".\"", [("hint", .str
        "Use a single word or quoted phrase. Multiple terms: term1 AND term2.")]⟩), h) := by
  have houtcome := searchCatalogue_of_problem (v := v) hplace hstores hreadable hapi hquery hproblem
    500 none none false false
  exact houtcome.trans (bind_of_ok (searchProblem_of_saysSyntax rfl rfl))

theorem Host.Finds.asksFor {e : EntryFields} (hfinds : h.Finds root v query e)
    (hplace : (Layout.catalogue root v.name).outcome h = (.ok p, h)) (hstores : h.Stores p d)
    (hjoins : c.Joins types) (hreadable : d.isReadable) (hapi : d.api = some c) :
    entryScheme.asksFor (Query.prepare (Query.prepare query)).toList
      (entryScheme.doc e.texts) := by
  obtain ⟨found, he, hshown⟩ := hfinds
  have hsearch := search_forText d (Query.prepare query)
  cases hhits : d.hits (Query.prepare query) (.int 500) (.given none none) with
  | error err =>
    rw [hhits] at hsearch
    obtain ⟨problem, -, hfails⟩ := searchCatalogue_outcome_of_error hplace hstores hsearch
    rw [hshown false] at hfails
    exact nomatch hfails
  | ok hits =>
    rw [hhits] at hsearch
    have hgives := searchCatalogue_outcome hplace hstores hsearch false
    rw [hshown false] at hgives
    have hrows : found.map Hit.toJson = hits.map Hit.toJson :=
      Except.ok.inj (Except.ok.inj (Prod.mk.inj hgives).1)
    obtain rfl := Hit.toJson_injective.list_map hrows
    have hasked := Database.entry_mem_asked_of_hits hreadable hapi hjoins.keys hjoins.covered
      hhits he
    exact (Bool.and_eq_true_iff.mp (mem_filter.mp hasked).2).1

end Found

namespace Java.TypeDecl

def qualifiedName (d : TypeDecl) : String :=
  d.package ++ "." ++ d.name

theorem toList_qualifiedName (d : TypeDecl) :
    d.qualifiedName.toList = d.package.toList ++ '.' :: d.name.toList := by
  simp [qualifiedName]

theorem doc_entry (d : TypeDecl) :
    entryScheme.doc d.entry.texts =
      [wordTokens d.package.toList, wordTokens d.name.toList, [d.kind.word.toList], [], [], [], [],
        [], "public".toList :: d.kind.word.toList :: wordTokens d.name.toList] := by
  have hkind : wordTokens d.kind.word.toList = [d.kind.word.toList] := by
    cases d.kind <;> decide +kernel
  have hblank : FullText.isSeparator ' ' := by decide +kernel
  have hpublic : wordTokens "public".toList = ["public".toList] := by decide +kernel
  have hsnippet : wordTokens ("public " ++ d.kind.word ++ " " ++ d.name).toList =
      "public".toList :: d.kind.word.toList :: wordTokens d.name.toList := by
    have hsplit : ("public " ++ d.kind.word ++ " " ++ d.name).toList =
        "public".toList ++ ' ' :: (d.kind.word.toList ++ ' ' :: d.name.toList) := by simp
    rw [hsplit, FullText.wordTokens_append hblank, FullText.wordTokens_append hblank, hpublic,
      hkind]
    rfl
  show [_, _, wordTokens d.kind.word.toList, _, _, _, _, _,
    wordTokens ("public " ++ d.kind.word ++ " " ++ d.name).toList] = _
  rw [hkind, hsnippet]
  rfl

variable {d : TypeDecl}

theorem infix_of_mentions {ts : List FullText.Token} (hts : 2 ≤ ts.length)
    (hmentions : Mentions (entryScheme.doc d.entry.texts) none ts) :
    ts <:+: wordTokens d.package.toList ∨ ts <:+: wordTokens d.name.toList ∨
      ts <:+: "public".toList :: d.kind.word.toList :: wordTokens d.name.toList := by
  obtain ⟨-, i, column, hcolumn, -, hwithin⟩ := hmentions
  have hlength : 2 ≤ column.length := hts.trans hwithin.length_le
  have hmem := mem_of_getElem? hcolumn
  rw [doc_entry] at hmem
  simp only [mem_cons, not_mem_nil, or_false] at hmem
  rcases hmem with rfl | rfl | rfl | rfl | rfl | rfl | rfl | rfl | rfl
  · exact .inl hwithin
  · exact .inr (.inl hwithin)
  · simp at hlength
  · simp at hlength
  · simp at hlength
  · simp at hlength
  · simp at hlength
  · simp at hlength
  · exact .inr (.inr hwithin)

/-- The words of the last part of a filter follow each other in the package or not at all: the
columns with the name are too short, or start with another word. -/
theorem infix_package_of_mentions (hmentions : Mentions (entryScheme.doc d.entry.texts) none
      ("class".toList :: "name".toList :: wordTokens d.name.toList)) :
    "class".toList :: "name".toList :: wordTokens d.name.toList <:+:
      wordTokens d.package.toList := by
  rcases infix_of_mentions (by simp) hmentions with hpackage | hname | hsnippet
  · exact hpackage
  · have hlength := hname.length_le
    simp only [length_cons] at hlength
    omega
  · have hsame := hsnippet.eq_of_length (by simp)
    exact absurd (cons.inj hsame).1 (by decide)

theorem not_mentions_of_infix_package
    (hwithin : "class".toList :: "name".toList :: wordTokens d.name.toList <:+:
      wordTokens d.package.toList) :
    ¬ Mentions (entryScheme.doc d.entry.texts) none
      ("package".toList :: wordTokens d.package.toList) := by
  intro hmentions
  have hlong := hwithin.length_le
  simp only [length_cons] at hlong
  have htwo : 2 ≤ ("package".toList :: wordTokens d.package.toList).length := by
    simp only [length_cons]
    omega
  rcases infix_of_mentions htwo hmentions with hpackage | hname | hsnippet
  · exact absurd hpackage.length_le (by simp)
  · have hlength := hname.length_le
    rw [length_cons] at hlength
    omega
  · have hlength := hsnippet.length_le
    simp only [length_cons] at hlength
    omega

/-- So the filter as it is prepared once more asks for the entry of its own type only in a package
of one dot, a capital after it, and these words. -/
theorem isQualified_of_asksFor (hp : IsDotted d.package.toList) (hn : IsName d.name.toList)
    (hasks : entryScheme.asksFor
      (Query.prepareChars (classFilter d.package.toList d.name.toList))
      (entryScheme.doc d.entry.texts)) :
    isQualified d.package.toList ∧
      "class".toList :: "name".toList :: wordTokens d.name.toList <:+:
        wordTokens d.package.toList := by
  have hwithin := infix_package_of_mentions (mentions_of_asksFor_filter hp hn hasks)
  refine ⟨?_, hwithin⟩
  by_contra hqualified
  by_cases hdot : '.' ∈ d.package.toList
  · have hproblem := problem?_filter hp hn hdot (eq_false_of_ne_true hqualified)
    rw [FullText.Scheme.problem?_eq_none_of_asksFor hasks] at hproblem
    exact nomatch hproblem
  · exact not_mentions_of_infix_package hwithin (asksFor_filter_of_not_mem hp hn hdot hasks).1

theorem mentions_filter (hpackage : wordTokens d.package.toList ≠ [])
    (hname : wordTokens d.name.toList ≠ []) :
    Mentions (entryScheme.doc d.entry.texts) (some [0]) (wordTokens d.package.toList) ∧
      Mentions (entryScheme.doc d.entry.texts) (some [1]) (wordTokens d.name.toList) :=
  ⟨⟨hpackage, 0, _, rfl, rfl, infix_refl _⟩, ⟨hname, 1, _, rfl, rfl, infix_refl _⟩⟩

theorem toList_prepare_qualifiedName (hp : IsDotted d.package.toList) (hn : IsName d.name.toList)
    (hcapital : (d.name.toList.head?.any Text.isCapital)) :
    (Query.prepare d.qualifiedName).toList = classFilter d.package.toList d.name.toList := by
  have hquote : d.package.toList.head? ≠ some '"' :=
    fun hhead => hp.quote_not_mem (mem_of_mem_head? hhead)
  rw [Query.prepare, String.toList_ofList, toList_qualifiedName,
    Query.prepareChars_qualified hp.notBlank hquote
      (fun c hc => Text.isBlank_eq_false_of_isWord (hn.2 c hc))
      (hn.not_mem_of_isWord (by decide)) hcapital]

end Java.TypeDecl

/-- After a successful run, the qualified name of an extracted type is a query that the database
answers with this type, but a search of the catalogue refuses it when the package has dots, unless
there is only one and a capital follows. -/
theorem search_qualifiedName_of_indexed {root : Path} {v : ServerVersion} {h h' : Host}
    {stats : Nat × Nat × Nat} {dir database : Path}
    (hindex : (indexVersion root v.name).outcome h = (.ok (.ok stats), h'))
    (hdir : (Layout.sources root v.name).outcome h = (.ok dir, h))
    (hdatabase : (Layout.catalogue root v.name).outcome h = (.ok database, h))
    (hplace : (Layout.catalogue root v.name).outcome h' = (.ok database, h'))
    {t : String × Java.TypeDecl} (ht : t ∈ SourceFile.types (SourceFile.below h dir))
    (hcapital : (t.2.name.toList.head?.any Text.isCapital) = true) :
    (wordTokens t.2.package.toList ≠ [] → wordTokens t.2.name.toList ≠ [] →
      ((SourceFile.types (SourceFile.below h dir)).flatMap fun u => u.2.entries).countP
        (fun e => entryScheme.asksFor (Query.prepare t.2.qualifiedName).toList
          (entryScheme.doc e.texts)) ≤ 500 →
      ∃ found : List Hit, t.2.entry ∈ found.map Hit.entry ∧
        (searchEntries database t.2.qualifiedName 500 none none).outcome h' =
          (.ok (found.map Hit.toJson), h')) ∧
    ('.' ∈ t.2.package.toList → isQualified t.2.package.toList = false →
      (searchCatalogue (some root) v (.forText t.2.qualifiedName) false).outcome h' =
        (.ok (.error ⟨"fts5_syntax", .str "fts5: syntax error near \".\"", [("hint", .str
          "Use a single word or quoted phrase. Multiple terms: term1 AND term2.")]⟩), h')) ∧
    (h'.Finds root v t.2.qualifiedName t.2.entry →
      isQualified t.2.package.toList = true ∧
        "class".toList :: "name".toList :: wordTokens t.2.name.toList <:+:
          wordTokens t.2.package.toList) := by
  obtain ⟨c, d, hjoins, hreadable, hapi, -, hstores⟩ := indexVersion_joins hindex hdir hdatabase
  obtain ⟨hp, hn⟩ := SourceFile.names_of_mem_types ht
  have honce := Java.TypeDecl.toList_prepare_qualifiedName hp hn hcapital
  have htwice : (Query.prepare (Query.prepare t.2.qualifiedName)).toList =
      Query.prepareChars (classFilter t.2.package.toList t.2.name.toList) := by
    rw [Query.prepare, String.toList_ofList, honce]
  obtain ⟨hreads, hasks⟩ := asksFor_classFilter hp hn
  refine ⟨fun hpackage hname hfew => ?_, fun hdot hqualified => ?_, fun hfinds => ?_⟩
  · rw [← honce] at hreads
    obtain ⟨found, hfound, hperm⟩ := hjoins.hits_perm hreadable hapi hreads hfew
    refine ⟨found, hperm.mem_iff.mpr (mem_filter.mpr ⟨?_, ?_⟩), ?_⟩
    · exact mem_flatMap.mpr ⟨t, ht, mem_cons_self⟩
    · rw [honce, hasks]
      exact Java.TypeDecl.mentions_filter hpackage hname
    · rw [searchEntries_outcome hstores, hfound]
      rfl
  · have hproblem := problem?_filter hp hn hdot hqualified
    rw [← htwice] at hproblem
    refine searchCatalogue_outcome_of_dot hplace hstores hreadable hapi ?_ hproblem
    intro hempty
    rw [hempty] at honce
    exact absurd honce.symm (by simp [Query.classFilter_eq, Query.filterFront_eq])
  · have hfound := hfinds.asksFor hplace hstores hjoins hreadable hapi
    rw [htwice] at hfound
    exact Java.TypeDecl.isQualified_of_asksFor hp hn hfound

def dottedWorkspace : Host where
  files := ⟨[
    (["w"], .directory), (["w", "workspace"], .directory),
    (["w", "workspace", "sources"], .directory),
    (["w", "workspace", "sources", "release"], .directory),
    (["w", "workspace", "sources", "release", "A.java"],
      .file (.ofText "package com.example;\npublic class Foo \x7b\n\x7d\n") 5)]⟩

def dottedType : Java.TypeDecl where
  package := "com.example"
  name := "Foo"
  kind := .classType
  methods := []
  parent := none
  interfaces := none
  constants := []

/-- There the database finds the class under its qualified name, and a search of the catalogue
refuses the name. -/
theorem search_qualifiedName_dottedWorkspace :
    ∃ (h' : Host) (found : List Hit),
      (indexVersion (.absolute ["w"]) "release").outcome dottedWorkspace =
        (.ok (.ok (1, 0, 0)), h') ∧
      dottedType.entry ∈ found.map Hit.entry ∧
      (searchEntries smallDatabase "com.example.Foo" 500 none none).outcome h' =
        (.ok (found.map Hit.toJson), h') ∧
      (searchCatalogue (some (.absolute ["w"])) .release (.forText "com.example.Foo")
        false).outcome h' =
        (.ok (.error ⟨"fts5_syntax", .str "fts5: syntax error near \".\"", [("hint", .str
          "Use a single word or quoted phrase. Multiple terms: term1 AND term2.")]⟩), h') ∧
      ¬ h'.Finds (.absolute ["w"]) .release "com.example.Foo" dottedType.entry := by
  have hstats : ((indexVersion (.absolute ["w"]) "release").outcome dottedWorkspace).1 =
      .ok (.ok (1, 0, 0)) := by
    simp only [indexVersion, Console.withProgress_release]
    decide +kernel
  obtain ⟨h', hindex⟩ : ∃ h', (indexVersion (.absolute ["w"]) "release").outcome dottedWorkspace =
      (.ok (.ok (1, 0, 0)), h') := ⟨_, Prod.ext hstats rfl⟩
  have htypes : SourceFile.types (SourceFile.below dottedWorkspace
      (.absolute ["w", "workspace", "sources", "release"])) = [("A.java", dottedType)] := by
    decide +kernel
  have hsources : (Layout.sources (.absolute ["w"]) "release").outcome dottedWorkspace =
      (.ok (.absolute ["w", "workspace", "sources", "release"]), dottedWorkspace) := by rfl
  have hcatalogue : (Layout.catalogue (.absolute ["w"]) "release").outcome dottedWorkspace =
      (.ok smallDatabase, dottedWorkspace) := by rfl
  have houtput : Layout.OutputIsThere dottedWorkspace := by
    intro s hs
    cases hs
  have hplace := Layout.catalogue_of_indexed hindex hcatalogue houtput
  obtain ⟨honce, htwice, hfinds⟩ := search_qualifiedName_of_indexed (v := .release)
    (t := ("A.java", dottedType)) hindex hsources hcatalogue hplace
    (by rw [htypes]; exact mem_singleton_self _) (by decide +kernel)
  rw [htypes] at honce
  obtain ⟨found, hentry, hfound⟩ :=
    honce (by decide +kernel) (by decide +kernel) (by decide +kernel)
  have hsimple : isQualified dottedType.package.toList = false := by decide +kernel
  refine ⟨h', found, hindex, hentry, hfound, htwice (by decide) hsimple, fun hshown => ?_⟩
  have hqualified := (hfinds hshown).1
  rw [hsimple] at hqualified
  cases hqualified

end JarAtlas
