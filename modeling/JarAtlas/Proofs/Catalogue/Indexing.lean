import JarAtlas.Proofs.Catalogue.Insertion
import JarAtlas.Proofs.Console.Progress
import JarAtlas.Proofs.Host.Reading
import JarAtlas.Proofs.Java.Header

/-!
Building the catalogue of a version, from the machine before to the machine after. When it succeeds,
the database of the version holds exactly what the writer made of the types in the source files, and
every later question to that database is answered from it.
-/

namespace JarAtlas

open JarAtlas.Action SourceFile Database Connection Console

variable {root : Path} {version : String} {h : Host}

namespace Layout

theorem reads_workspace (root : Path) : (workspace root).Reads := by
  refine reads_get.bind fun h => ?_
  split
  · refine (reads_isDir _).bind fun isDir => ?_
    split <;> exact reads_pure _
  · exact reads_pure _

theorem reads_sources (root : Path) (version : String) : (sources root version).Reads :=
  (reads_workspace root).bind_pure

theorem reads_decompiled (root : Path) (version : String) : (decompiled root version).Reads :=
  (reads_workspace root).bind_pure

theorem reads_namedBy? (name : String) : (namedBy? name).Reads := by
  refine reads_get.bind fun h => ?_
  split
  · split
    · exact reads_pure _
    · exact (reads_resolve _).bind_pure
  · exact reads_pure _

theorem reads_databases (root : Path) : (databases root).Reads := by
  refine (reads_namedBy? _).bind fun named => ?_
  split
  · exact reads_pure _
  · exact (reads_workspace root).bind_pure

theorem reads_catalogue (root : Path) (version : String) : (catalogue root version).Reads := by
  refine (reads_namedBy? _).bind fun named => ?_
  split
  · exact reads_pure _
  · exact (reads_databases root).bind_pure

end Layout

namespace Console

variable {α : Type} {a : Action α} {h h' : Host} {x : α}

theorem beforeProgress_outcome_ok (hdone : (beforeProgress a).outcome h = (.ok x, h')) :
    a.outcome h = (.ok x, h') := by
  obtain ⟨r, h₁, hattempt, hrest⟩ := bind_ok_iff.mp hdone
  have ha := attempt_ok hattempt
  cases r with
  | error e =>
    obtain ⟨⟨⟩, h₂, -, hfail⟩ := bind_ok_iff.mp hrest
    simp at hfail
  | ok y =>
    obtain ⟨rfl, rfl⟩ := pure_ok hrest
    exact ha

theorem beforeProgress_outcome_of_ok (ha : a.outcome h = (.ok x, h')) :
    (beforeProgress a).outcome h = (.ok x, h') := by
  rw [beforeProgress, bind_of_ok (outcome_attempt a h), ha]
  rfl

theorem withProgress_outcome_of_ok {label : String} {marked : Marked}
    (hlabel : readMarkup ("[progress.description]" ++ label) = .ok marked)
    (ha : a.outcome h = (.ok x, h')) :
    (withProgress label a).outcome h = (.ok x, { h' with errors := h'.errors ++ "\n" }) := by
  rw [withProgress, hlabel, bind_of_ok (outcome_ofExcept _ h)]
  exact outcome_always ha (outcome_modify _ h')

end Console

namespace Connection

variable {c : Connection} {h : Host} {d : Database}

theorem Ready.stats_outcome (hc : c.Ready h d) {cat : Catalogue} (hapi : d.api = some cat) :
    (c.query stats).outcome h = (.ok cat.counts, h) := by
  rw [query, bind_of_ok hc.view, outcome_ofExcept]
  simp only [stats, catalogue, part, hc.readable, hapi]
  rfl

private theorem Ready.emptied_outcome (hc : c.Ready h d) :
    ∃ c' h', (do
        let (_, c) ← c.changeNow fun w => .ok ((), w.makeCatalogue)
        let ((), c) ← c.changeNow fun w => return ((), ← w.clearCatalogue)
        return c : Action Connection).outcome h = (.ok c', h') ∧
      c'.path = c.path ∧ c'.Ready h' { d with api := some {} } ∧ h.Grows h' := by
  obtain ⟨c₁, h₁, hmake, hcommits₁⟩ := hc.changeNow_outcome
    (f := fun w => .ok ((), w.makeCatalogue)) rfl hc.readable
  have hcleared : Work.clearCatalogue ⟨{ d with api := some {} }, c₁.lastRow⟩ =
      .ok (Work.makeCatalogue ⟨d, c.lastRow⟩) := by
    rw [hcommits₁.lastRow]
    exact Work.clearCatalogue_makeCatalogue (w := ⟨d, c.lastRow⟩) hc.readable
  obtain ⟨c₂, h₂, hclear, hcommits₂⟩ := hcommits₁.ready.changeNow_outcome (a := ())
    (f := fun w => return ((), ← w.clearCatalogue))
    (congrArg (· >>= fun w => pure ((), w)) hcleared) hc.readable
  refine ⟨c₂, h₂, ?_, hcommits₂.path.trans hcommits₁.path, hcommits₂.ready,
    hcommits₁.grows.trans hcommits₂.grows⟩
  rw [bind_of_ok hmake]
  dsimp only
  rw [bind_of_ok hclear]
  rfl

private theorem Ready.filled_outcome (hc : c.Ready h d) (files : List SourceFile) :
    ∃ writer h', Writer.start.addTypes (types files) = .ok writer ∧ writer.Sound ∧
      (do
        let ((), c) ← c.changeNow fun w => return ((), ← w.index files)
        c.query stats).outcome h = (.ok writer.catalogue.counts, h') ∧
      h.Grows h' ∧ h'.Stores c.path { d with api := some writer.catalogue } := by
  obtain ⟨writer, hadd, hsound, hindex⟩ := Work.index_eq (w := ⟨d, c.lastRow⟩) hc.readable files
  obtain ⟨c₁, h₁, hchange, hcommits⟩ := hc.changeNow_outcome (a := ())
    (f := fun w => return ((), ← w.index files))
    (congrArg (· >>= fun w => pure ((), w)) hindex) hc.readable
  refine ⟨writer, h₁, hadd, hsound, ?_, hcommits.grows, hcommits.stores⟩
  rw [bind_of_ok hchange]
  dsimp only
  exact hcommits.ready.stats_outcome rfl

end Connection

/-- What a run needs: source files, a label that can be read, and a database that takes tables. -/
structure Host.Indexable (h : Host) (root : Path) (version : String) (dir database : Path) :
    Prop where
  sources : (Layout.sources root version).outcome h = (.ok dir, h)
  isDir : h.isDir dir = .ok true
  files : (h.filesBelow dir ".java").isEmpty = false
  catalogue : (Layout.catalogue root version).outcome h = (.ok database, h)
  label : ∃ marked,
    Console.readMarkup ("[progress.description]" ++ ("[green]Indexing " ++ version)) = .ok marked
  ready : ∃ h₁ d, (Connection.start database).outcome h = (.ok { path := database }, h₁) ∧
    Connection.Ready { path := database } h₁ d

variable {h' : Host} {stats : Nat × Nat × Nat}

theorem indexable_of_indexVersion
    (hindex : (indexVersion root version).outcome h = (.ok (.ok stats), h')) :
    ∃ dir database, h.Indexable root version dir database := by
  obtain ⟨dir, hdir, hlooked⟩ := (Layout.reads_sources root version).bind_ok hindex
  rw [outcome_get_bind] at hlooked
  obtain ⟨isDir, hisDir, hchecked⟩ := (reads_isDir dir).bind_ok hlooked
  split at hchecked
  · cases (pure_ok hchecked).1
  · next hfound =>
    simp only [Bool.or_eq_true, Bool.not_eq_true', not_or, Bool.not_eq_false] at hfound
    obtain ⟨database, hdatabase, htried⟩ :=
      (Layout.reads_catalogue root version).bind_ok hchecked
    obtain ⟨outcome, h₁, hattempt, hlast⟩ := bind_ok_iff.mp htried
    cases outcome with
    | error e => cases (pure_ok hlast).1
    | ok answer =>
      obtain ⟨c, h₂, hstart, hrest⟩ := bind_ok_iff.mp (attempt_ok hattempt)
      obtain ⟨c₃, h₃, hempty, hprogress⟩ := bind_ok_iff.mp hrest
      obtain ⟨⟨⟨⟩, c₄⟩, h₄, hmake, -⟩ := bind_ok_iff.mp (beforeProgress_outcome_ok hempty)
      obtain ⟨marked, h₅, hlabel, -⟩ := bind_ok_iff.mp hprogress
      obtain ⟨rfl, -, place, hopens⟩ := start_outcome_ok hstart
      obtain ⟨d, hready⟩ := ready_of_changeNow rfl hopens hmake
      rw [outcome_isDir, hfound.1] at hisDir
      exact ⟨dir, database, hdir, (Prod.mk.inj hisDir).1, by simpa using hfound.2, hdatabase,
        ⟨marked, (ofExcept_ok hlabel).1⟩, h₂, d, hstart, hready⟩

/-- The database holds the catalogue that the writer made of the types in the source files. -/
structure Host.Indexed (h h' : Host) (dir database : Path) (writer : Writer) (d : Database) :
    Prop where
  adds : Writer.start.addTypes (types (below h dir)) = .ok writer
  sound : writer.Sound
  readable : d.isReadable = true
  api : d.api = some writer.catalogue
  grows : h.Grows h'
  stores : h'.Stores database d

variable {dir database : Path}

/-- A run that has what it needs succeeds, and the numbers of the catalogue are told. -/
theorem Host.Indexable.indexVersion_outcome (hh : h.Indexable root version dir database) :
    ∃ writer d h',
      (indexVersion root version).outcome h = (.ok (.ok writer.catalogue.counts), h') ∧
      h.Indexed h' dir database writer d := by
  obtain ⟨h₁, d, hstart, hready⟩ := hh.ready
  obtain ⟨marked, hlabel⟩ := hh.label
  obtain ⟨-, hgrows₁, -⟩ := start_outcome_ok hstart
  obtain ⟨c₂, h₂, hempty, hpath, hready₂, hgrows₂⟩ := hready.emptied_outcome
  obtain ⟨writer, h₃, hadd, hsound, hfill, hgrows₃, hstores⟩ := hready₂.filled_outcome (below h dir)
  have hisDir : (Action.isDir dir).outcome h = (.ok true, h) := by rw [outcome_isDir, hh.isDir]
  rw [hpath] at hstores
  refine ⟨writer, { d with api := some writer.catalogue },
    { h₃ with errors := h₃.errors ++ "\n" }, ?_, hadd, hsound, hready.readable, rfl,
    (hgrows₁.trans hgrows₂).trans (hgrows₃.trans (h₃.grows_errors _)), hstores.errors _⟩
  rw [indexVersion, bind_of_ok hh.sources, outcome_get_bind,
    bind_of_ok hisDir, if_neg (by simp [hh.files]), bind_of_ok hh.catalogue,
    bind_of_ok (outcome_attempt _ h), bind_of_ok hstart,
    bind_of_ok (beforeProgress_outcome_of_ok hempty),
    withProgress_outcome_of_ok hlabel hfill]
  rfl

/-- What a successful run leaves, whatever was there before. -/
theorem indexVersion_outcome_ok
    (hindex : (indexVersion root version).outcome h = (.ok (.ok stats), h')) :
    ∃ dir database writer d, (Layout.sources root version).outcome h = (.ok dir, h) ∧
      (Layout.catalogue root version).outcome h = (.ok database, h) ∧
      h.Indexed h' dir database writer d := by
  obtain ⟨dir, database, hh⟩ := indexable_of_indexVersion hindex
  obtain ⟨writer, d, h₁, houtcome, hdone⟩ := hh.indexVersion_outcome
  obtain rfl := (Prod.mk.inj (houtcome.symm.trans hindex)).2
  exact ⟨dir, database, writer, d, hh.sources, hh.catalogue, hdone⟩

theorem indexed_of_indexVersion
    (hindex : (indexVersion root version).outcome h = (.ok (.ok stats), h'))
    (hdir : (Layout.sources root version).outcome h = (.ok dir, h))
    (hdatabase : (Layout.catalogue root version).outcome h = (.ok database, h)) :
    ∃ writer d, h.Indexed h' dir database writer d := by
  obtain ⟨dir', database', writer, d, hdir', hdatabase', hdone⟩ := indexVersion_outcome_ok hindex
  obtain rfl := ok_unique hdir' hdir
  obtain rfl := ok_unique hdatabase' hdatabase
  exact ⟨writer, d, hdone⟩

def smallWorkspace : Host where
  files := ⟨[
    (["w"], .directory), (["w", "workspace"], .directory),
    (["w", "workspace", "sources"], .directory),
    (["w", "workspace", "sources", "release"], .directory),
    (["w", "workspace", "sources", "release", "A.java"],
      .file (.ofText "package p;\npublic class A \x7b\n  public int size();\n\x7d\n") 5),
    (["w", "workspace", "db"], .directory),
    (["w", "workspace", "db", "prism_api_release.db"], .file (.database { api := some {
      classes := ⟨[⟨1, "old", "Gone", "class", "Gone.java", none, none⟩], 1⟩ } }) 6)]⟩

theorem indexVersion_smallWorkspace :
    ∃ h', (indexVersion (.absolute ["w"]) "release").outcome smallWorkspace =
      (.ok (.ok (1, 1, 0)), h') := by
  have hstats : ((indexVersion (.absolute ["w"]) "release").outcome smallWorkspace).1 =
      .ok (.ok (1, 1, 0)) := by
    simp only [indexVersion, withProgress_release]
    decide +kernel
  exact ⟨_, Prod.ext hstats rfl⟩

def smallDatabase : Path :=
  .absolute ["w", "workspace", "db", "prism_api_release.db"]

/-- A machine where a catalogue is stored as that of the release line. -/
def releaseMachine (c : Catalogue) : Host where
  files := ⟨[
    (["w"], .directory), (["w", "workspace"], .directory),
    (["w", "workspace", "db"], .directory),
    (["w", "workspace", "db", "prism_api_release.db"], .file (.database { api := some c }) 6)]⟩

theorem stores_releaseMachine (c : Catalogue) :
    (releaseMachine c).Stores smallDatabase { api := some c } := by
  have hstart : (start smallDatabase).outcome (releaseMachine c) =
      (.ok { path := smallDatabase }, releaseMachine c) := rfl
  obtain ⟨-, -, place, hopens⟩ := start_outcome_ok hstart
  obtain rfl : place = ["w", "workspace", "db", "prism_api_release.db"] :=
    Except.ok.inj (hopens.leads.symm.trans rfl)
  exact ⟨_, 6, hopens, rfl⟩

theorem sources_smallWorkspace :
    (Layout.sources (.absolute ["w"]) "release").outcome smallWorkspace =
      (.ok (.absolute ["w", "workspace", "sources", "release"]), smallWorkspace) := by
  rfl

theorem catalogue_smallWorkspace :
    (Layout.catalogue (.absolute ["w"]) "release").outcome smallWorkspace =
      (.ok smallDatabase, smallWorkspace) := by
  rfl

def smallType : Java.TypeDecl where
  package := "p"
  name := "A"
  kind := .classType
  methods := [⟨"size", "int", "", false, none, "public int size()"⟩]
  parent := none
  interfaces := none
  constants := []

theorem types_smallWorkspace :
    types (below smallWorkspace
      (.absolute ["w", "workspace", "sources", "release"])) = [("A.java", smallType)] := by
  decide +kernel

theorem distinct_smallWorkspace :
    ((types (below smallWorkspace
      (.absolute ["w", "workspace", "sources", "release"]))).map fun t => t.2.key).Nodup := by
  rw [types_smallWorkspace]
  decide

/-!
Looking classes up after the catalogue of a version was built. Each extracted type is found under
its own package and name with exactly its own members, nothing else is found, and what the database
held before plays no part. Blanks around the names that are asked for do not matter.
-/

open List Action Catalogue

/-- The details are those of a type from the file at a path: its class, and its members ordered by
name. -/
structure ClassDetails.Describes (found : ClassDetails) (path : String) (d : Java.TypeDecl) :
    Prop where
  row : found.row = d.classRow path found.row.id
  methods : found.methods.Perm (d.methods.map (·.rowOf found.row.id))
  methodsByName : found.methods.Pairwise fun a b => a.name ≤ b.name
  constants : found.constants.Perm (d.constants.map (·.rowOf found.row.id))
  constantsByName : found.constants.Pairwise fun a b => a.name ≤ b.name

theorem pairwise_sortByName {α : Type} (name : α → String) (rows : List α) :
    (rows.mergeSort fun a b => textLe (name a) (name b)).Pairwise fun a b => name a ≤ name b := by
  have htrans (a b c : α) (hab : textLe (name a) (name b))
      (hbc : textLe (name b) (name c)) : textLe (name a) (name c) := by
    simp only [textLe, decide_eq_true_eq] at hab hbc ⊢
    exact String.le_trans hab hbc
  have htotal (a b : α) : (textLe (name a) (name b) || textLe (name b) (name a)) = true := by
    simp only [textLe, Bool.or_eq_true, decide_eq_true_eq]
    exact String.le_total _ _
  refine (pairwise_mergeSort htrans htotal rows).imp fun hle => ?_
  simpa [textLe] using hle

private theorem eraseReps_loop_sorted {first : String} {rest : List String}
    (hsorted : (first :: rest).Pairwise (· ≤ ·)) (done : List String) :
    ∃ kept, eraseRepsBy.loop (· == ·) first rest done = done.reverse ++ kept ∧
      kept.Pairwise (· < ·) ∧ ∀ s, s ∈ kept ↔ s = first ∨ s ∈ rest := by
  induction rest generalizing first done with
  | nil => exact ⟨[first], by simp [eraseRepsBy.loop], pairwise_singleton _ _, by simp⟩
  | cons second rest ih =>
    obtain ⟨hfirst, hrest⟩ := pairwise_cons.mp hsorted
    by_cases hsame : first = second
    · subst hsame
      obtain ⟨kept, hkept, hordered, hmem⟩ := ih hrest done
      exact ⟨kept, by simpa [eraseRepsBy.loop] using hkept, hordered, by simp [hmem]⟩
    · obtain ⟨kept, hkept, hordered, hmem⟩ := ih hrest (first :: done)
      refine ⟨first :: kept, ?_, pairwise_cons.mpr ⟨fun s hs => ?_, hordered⟩, ?_⟩
      · simpa [eraseRepsBy.loop, beq_eq_false_iff_ne.mpr hsame] using hkept
      · have hlt : first < second := by
          refine String.not_le.mp fun hle => hsame ?_
          exact String.le_antisymm (hfirst _ mem_cons_self) hle
        rcases (hmem s).mp hs with rfl | hs
        · exact hlt
        · refine String.not_le.mp fun hle => String.not_le.mpr hlt ?_
          exact String.le_trans ((pairwise_cons.mp hrest).1 s hs) hle
      · simp [hmem]

theorem distinctTexts_spec (texts : List String) :
    (distinctTexts texts).Pairwise (· < ·) ∧
      ∀ s, s ∈ distinctTexts texts ↔ s ∈ texts := by
  have hsorted : (texts.mergeSort textLe).Pairwise (· ≤ ·) := pairwise_sortByName id texts
  have hmem (s : String) : s ∈ texts.mergeSort textLe ↔ s ∈ texts := mem_mergeSort
  simp only [distinctTexts, ← hmem]
  cases hall : texts.mergeSort textLe with
  | nil => exact ⟨.nil, by simp [eraseReps, eraseRepsBy]⟩
  | cons first rest =>
    rw [hall] at hsorted
    obtain ⟨kept, hkept, hordered, hmem⟩ := eraseReps_loop_sorted hsorted []
    rw [reverse_nil, nil_append] at hkept
    rw [eraseReps, eraseRepsBy, hkept]
    exact ⟨hordered, by simpa using hmem⟩

theorem nodup_distinctTexts (texts : List String) : (distinctTexts texts).Nodup :=
  (distinctTexts_spec texts).1.imp fun {a b} (hlt : a < b) (heq : a = b) =>
    String.lt_irrefl b (heq ▸ hlt)

variable {c : Catalogue}

theorem Catalogue.Holds.describes {types : List (String × Java.TypeDecl)} (hc : c.Holds types)
    (hdistinct : (types.map fun t => t.2.key).Nodup) {path : String} {d : Java.TypeDecl}
    (hd : (path, d) ∈ types) :
    ∃ found, c.details? d.package d.name = some found ∧ found.Describes path d := by
  obtain ⟨id, hfound⟩ := hc.details?_eq_some hdistinct hd
  refine ⟨_, hfound, rfl, ?_, ?_, ?_, ?_⟩
  · exact mergeSort_perm _ _
  · exact pairwise_sortByName MethodRow.name _
  · exact mergeSort_perm _ _
  · exact pairwise_sortByName ConstantRow.name _

theorem Database.details_eq {d : Database} (hreadable : d.isReadable) (hapi : d.api = some c)
    (package name : String) :
    d.details (.str package) (.str name) =
      .ok (c.details? (Text.strip package) (Text.strip name)) := by
  simp only [details, catalogue, part, hreadable, hapi]
  rfl

theorem SourceFile.strip_key {files : List SourceFile} {t : String × Java.TypeDecl}
    (ht : t ∈ types files) :
    (Text.strip t.2.package, Text.strip t.2.name) = t.2.key := by
  obtain ⟨f, -, hf⟩ := mem_flatMap.mp ht
  obtain ⟨d, hd, rfl⟩ := mem_map.mp hf
  obtain ⟨hpackage, hname⟩ := Java.strip_key_of_mem_extract hd
  rw [hpackage, hname]
  rfl

def Action.classDetails (database : Path) (package name : String) :
    Action (Option ClassDetails) :=
  queryDatabase database fun d => d.details (.str package) (.str name)

/-- After a successful run over types with different names, the stored catalogue holds these types
and nothing else, and classes are looked up in it. -/
theorem indexVersion_holds {root : Path} {version : String} {h h' : Host}
    {stats : Nat × Nat × Nat} {dir database : Path}
    (hindex : (indexVersion root version).outcome h = (.ok (.ok stats), h'))
    (hdir : (Layout.sources root version).outcome h = (.ok dir, h))
    (hdatabase : (Layout.catalogue root version).outcome h = (.ok database, h))
    (hdistinct : ((types (below h dir)).map fun t => t.2.key).Nodup) :
    ∃ c : Catalogue, c.Holds (types (below h dir)) ∧
      (queryDatabase database fun d => .ok d.api).outcome h' = (.ok (some c), h') ∧
      ∀ package name, (classDetails database package name).outcome h' =
        (.ok (c.details? (Text.strip package) (Text.strip name)), h') := by
  obtain ⟨writer, d, hdone⟩ := indexed_of_indexVersion hindex hdir hdatabase
  refine ⟨writer.catalogue, Writer.addTypes_holds hdone.adds hdistinct, ?_, fun package name => ?_⟩
  · rw [queryDatabase_outcome hdone.stores, hdone.api]
  · rw [classDetails, queryDatabase_outcome hdone.stores,
      Database.details_eq hdone.readable hdone.api]

/-- After a successful run over types with different names, a class is found exactly under the names
of an extracted type, with all that was extracted for it and nothing that was there before. -/
theorem classDetails_of_indexed {root : Path} {version : String} {h h' : Host}
    {stats : Nat × Nat × Nat} {dir database : Path}
    (hindex : (indexVersion root version).outcome h = (.ok (.ok stats), h'))
    (hdir : (Layout.sources root version).outcome h = (.ok dir, h))
    (hdatabase : (Layout.catalogue root version).outcome h = (.ok database, h))
    (hdistinct : ((SourceFile.types (SourceFile.below h dir)).map fun t => t.2.key).Nodup) :
    (∀ package name,
      (∀ t ∈ SourceFile.types (SourceFile.below h dir),
        t.2.key ≠ (Text.strip package, Text.strip name)) →
      (Action.classDetails database package name).outcome h' = (.ok none, h')) ∧
    (∀ t ∈ SourceFile.types (SourceFile.below h dir),
      (Text.strip t.2.package, Text.strip t.2.name) = t.2.key ∧
      ∀ package name, (Text.strip package, Text.strip name) = t.2.key →
        ∃ found, (Action.classDetails database package name).outcome h' = (.ok (some found), h') ∧
          found.Describes t.1 t.2) ∧
    ∃ c : Catalogue,
      (Action.queryDatabase database fun d => .ok d.api).outcome h' = (.ok (some c), h') ∧
      c.Holds (SourceFile.types (SourceFile.below h dir)) := by
  obtain ⟨c, hholds, hapi, hlookup⟩ := indexVersion_holds hindex hdir hdatabase hdistinct
  refine ⟨fun package name hnone => ?_, fun t ht => ⟨SourceFile.strip_key ht, ?_⟩, c, hapi, hholds⟩
  · rw [hlookup, hholds.details?_eq_none hnone]
  · intro package name hkey
    obtain ⟨hpackage, hname⟩ := Prod.mk.inj hkey
    obtain ⟨found, hfound, hdescribes⟩ := hholds.describes hdistinct ht
    refine ⟨found, ?_, hdescribes⟩
    rw [hlookup, hpackage, hname, hfound]

/-- Over an old catalogue, the only type of a small workspace is found and the old class is not. -/
theorem classDetails_smallWorkspace :
    ∃ h' found,
      (indexVersion (.absolute ["w"]) "release").outcome smallWorkspace =
        (.ok (.ok (1, 1, 0)), h') ∧
      (Action.classDetails smallDatabase "p" "A").outcome h' = (.ok (some found), h') ∧
      found.Describes "A.java" smallType ∧
      (Action.classDetails smallDatabase "old" "Gone").outcome h' = (.ok none, h') := by
  obtain ⟨h', hindex⟩ := indexVersion_smallWorkspace
  obtain ⟨hnone, hsome, -⟩ := classDetails_of_indexed hindex sources_smallWorkspace
    catalogue_smallWorkspace distinct_smallWorkspace
  rw [types_smallWorkspace] at hnone hsome
  obtain ⟨found, hfound, hdescribes⟩ :=
    (hsome ("A.java", smallType) (by simp)).2 "p" "A" (by decide +kernel)
  exact ⟨h', found, hindex, hfound, hdescribes, hnone "old" "Gone" (by decide +kernel)⟩

/-- A class is also found under a pair of names that was not extracted, if only blanks are too
much. -/
theorem classDetails_found_under_padded_name :
    ∃ h' found,
      (indexVersion (.absolute ["w"]) "release").outcome smallWorkspace =
        (.ok (.ok (1, 1, 0)), h') ∧
      (∀ t ∈ SourceFile.types (SourceFile.below smallWorkspace
        (.absolute ["w", "workspace", "sources", "release"])), t.2.key ≠ (" p", "A")) ∧
      (Action.classDetails smallDatabase " p" "A").outcome h' = (.ok (some found), h') := by
  obtain ⟨h', hindex⟩ := indexVersion_smallWorkspace
  obtain ⟨c, hholds, -, hlookup⟩ :=
    indexVersion_holds hindex sources_smallWorkspace catalogue_smallWorkspace
      distinct_smallWorkspace
  rw [types_smallWorkspace] at hholds ⊢
  obtain ⟨found, hfound, -⟩ :=
    hholds.describes (by decide) (mem_singleton_self ("A.java", smallType))
  refine ⟨h', found, hindex, by decide +kernel, ?_⟩
  have hstrip : Text.strip " p" = "p" := by decide +kernel
  have hname : Text.strip "A" = "A" := by decide +kernel
  rw [hlookup, hstrip, hname]
  exact congrArg (fun r => (Except.ok r, _)) hfound

end JarAtlas
