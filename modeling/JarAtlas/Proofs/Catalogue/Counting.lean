import JarAtlas.Proofs.Workspace.Layout
import Mathlib.Data.Finset.Card

/-!
The numbers that a run tells. Each type that is added is tallied: its name once, its members and its
entries every time. What was in the database before has no part in it, nor has it where the run is
cut by commits.
-/

open List

namespace JarAtlas

open JarAtlas.Action SourceFile Connection Writer

/-- The catalogue has one class for each name of the types, one row for each of their members, and
one entry for each type and each member, however often a name comes. -/
structure Catalogue.Tallies (c : Catalogue) (types : List (String × Java.TypeDecl)) : Prop where
  keys : (c.classes.rows.map ClassRow.key).toFinset = (types.map fun t => t.2.key).toFinset
  methods : c.methods.rows.length = (types.flatMap fun t => t.2.methods).length
  constants : c.constants.rows.length = (types.flatMap fun t => t.2.constants).length
  entries : c.entries.length = types.length + c.methods.rows.length + c.constants.rows.length

namespace Writer

variable {w w' : Writer} {types : List (String × Java.TypeDecl)}

theorem tallies_append {path : String} {d : Java.TypeDecl} {id : Nat}
    (htallies : w.catalogue.Tallies types) (hadds : w.Adds w' d id)
    (hputs : w.PutsClass w' path d id) : w'.catalogue.Tallies (types ++ [(path, d)]) := by
  have hmethods : w'.catalogue.methods.rows.length =
      w.catalogue.methods.rows.length + d.methods.length := by simp [hadds.methods]
  have hconstants : w'.catalogue.constants.rows.length =
      w.catalogue.constants.rows.length + d.constants.length := by simp [hadds.constants]
  refine ⟨?_, ?_, ?_, ?_⟩
  · rcases hputs with ⟨-, -, hclasses⟩ | ⟨⟨old, hold, hkey⟩, -, hclasses⟩
    · simp [hclasses, Table.push, htallies.keys, Java.TypeDecl.classRow, ClassRow.key,
        Java.TypeDecl.key, toFinset_append]
    -- The class that has the name already is one of those that were counted.
    · have hknown : d.key ∈ (types.map fun t => t.2.key).toFinset := by
        rw [← htallies.keys, mem_toFinset, ← hkey]
        exact mem_map_of_mem hold
      have hsame : (w'.catalogue.classes.rows.map ClassRow.key).toFinset =
          (types.map fun t => t.2.key).toFinset := by
        rw [hclasses]
        exact htallies.keys
      rw [hsame, map_append, toFinset_append]
      exact (Finset.union_eq_left.mpr (by simpa using hknown)).symm
  · simp [hmethods, htallies.methods]
  · simp [hconstants, htallies.constants]
  · have hentries := congrArg length hadds.entries
    simp only [length_map, length_append, Java.TypeDecl.entries, length_cons] at hentries
    simp only [length_append, length_singleton]
    have := htallies.entries
    omega

theorem addTypes_tallies (hadd : start.addTypes types = .ok w) : w.catalogue.Tallies types :=
  addTypes_induct (P := fun types w => w.catalogue.Tallies types) start_sound hadd
    ⟨rfl, rfl, rfl, rfl⟩ fun _ _ _ _ _ _ => tallies_append

end Writer

def Connection.addBatch (c : Connection) (files : List SourceFile) : Action Connection := do
  let ((), c) ← c.changeNow fun w => w.write "classes" fun writer =>
    return ((), ← files.foldlM Writer.addFile writer)
  return c

/-- Builds a catalogue with a commit after each batch of files, and gives its numbers. -/
def Connection.indexInBatches (c : Connection) (batches : List (List SourceFile)) :
    Action (Nat × Nat × Nat) := do
  let ((), c) ← c.changeNow fun w => return ((), ← w.makeCatalogue.clearCatalogue)
  let c ← batches.foldlM Connection.addBatch c
  c.query Database.stats

namespace Connection.Ready

variable {c : Connection} {h : Host} {d : Database} {cat : Catalogue}

theorem addBatch_outcome (hc : c.Ready h d) (hfilling : Work.Filling ⟨d, c.lastRow⟩ cat)
    (files : List SourceFile) :
    ∃ writer c' h', addTypes ⟨cat, c.lastRow⟩ (types files) = .ok writer ∧
      (c.addBatch files).outcome h = (.ok c', h') ∧ c'.lastRow = writer.lastRow ∧
      c'.Ready h' { d with api := some writer.catalogue } ∧
      Work.Filling ⟨{ d with api := some writer.catalogue }, c'.lastRow⟩ writer.catalogue := by
  obtain ⟨writer, hadd, hsound⟩ := addTypes_ok hfilling.sound (types files)
  have hwrite : Work.write ⟨d, c.lastRow⟩ "classes" (fun writer =>
      return ((), ← files.foldlM addFile writer)) =
      .ok ((), ⟨{ d with api := some writer.catalogue }, writer.lastRow⟩) := by
    rw [hfilling.write_eq, addFiles_eq, hadd]
    rfl
  obtain ⟨c', h', hchange, hcommits⟩ := hc.changeNow_outcome
    (f := fun w => w.write "classes" fun writer =>
      return ((), ← files.foldlM addFile writer)) hwrite hc.readable
  refine ⟨writer, c', h', hadd, ?_, hcommits.lastRow, hcommits.ready, hc.readable, rfl, ?_⟩
  · rw [addBatch, bind_of_ok hchange]
    rfl
  · rw [hcommits.lastRow]
    exact hsound

theorem addBatches_outcome (hc : c.Ready h d) (hfilling : Work.Filling ⟨d, c.lastRow⟩ cat)
    (batches : List (List SourceFile)) :
    ∃ writer c' h', addTypes ⟨cat, c.lastRow⟩ (types batches.flatten) =
        .ok writer ∧
      (batches.foldlM addBatch c).outcome h = (.ok c', h') ∧
      c'.Ready h' { d with api := some writer.catalogue } := by
  induction batches generalizing c h d cat with
  | nil =>
    have hsame : { d with api := some cat } = d := by rw [← hfilling.api]
    exact ⟨⟨cat, c.lastRow⟩, c, h, rfl, rfl, by rw [hsame]; exact hc⟩
  | cons files batches ih =>
    obtain ⟨writer₁, c₁, h₁, hadd₁, hbatch, hrow, hready₁, hfilling₁⟩ :=
      hc.addBatch_outcome hfilling files
    obtain ⟨writer, c', h', hadd, hbatches, hready⟩ := ih hready₁ hfilling₁
    refine ⟨writer, c', h', ?_, ?_, hready⟩
    · rw [hrow] at hadd
      rw [flatten_cons, types, flatMap_append, addTypes_append]
      show (addTypes _ (types files) >>= _) = _
      rw [hadd₁]
      exact hadd
    · rw [foldlM_cons, bind_of_ok hbatch]
      exact hbatches

theorem indexInBatches_outcome (hc : c.Ready h d) (batches : List (List SourceFile)) :
    ∃ writer h', Writer.start.addTypes (types batches.flatten) = .ok writer ∧
      (c.indexInBatches batches).outcome h = (.ok writer.catalogue.counts, h') := by
  obtain ⟨c₁, h₁, hmake, hcommits⟩ := hc.changeNow_outcome (a := ())
    (f := fun w => return ((), ← w.makeCatalogue.clearCatalogue))
    (congrArg (· >>= fun w => pure ((), w))
      (Work.clearCatalogue_makeCatalogue (w := ⟨d, c.lastRow⟩) hc.readable)) hc.readable
  have hfilling := Work.makeCatalogue_filling (w := ⟨d, c.lastRow⟩) hc.readable
  obtain ⟨writer, c₂, h₂, hadd, hbatches, hready₂⟩ :=
    hcommits.ready.addBatches_outcome (by rw [hcommits.lastRow]; exact hfilling) batches
  refine ⟨writer, h₂, by rw [hcommits.lastRow] at hadd; exact hadd, ?_⟩
  rw [indexInBatches, bind_of_ok hmake]
  dsimp only
  rw [bind_of_ok hbatches]
  exact hready₂.stats_outcome rfl

end Connection.Ready

theorem SourceFile.below_eq (h : Host) (dir : Path) :
    below h dir =
      ((h.filesBelow dir ".java").map fun f => (f.1, f.2.text?)).filterMap fun f =>
        f.2.map fun text =>
          ⟨Text.replace (Text.join "/" (f.1.parts.drop dir.parts.length)) "\\" "/", text⟩ := by
  rw [filterMap_map, below]
  congr 1
  funext f
  rcases f with ⟨p, _ | ⟨content, time⟩⟩ <;> rfl

theorem Content.plain_of_database? {content : Content} {d : Database}
    (hd : content.database? = some d) : content.plain = [] := by
  cases content with
  | bytes bs =>
    cases bs with
    | nil => rfl
    | cons b bs => cases hd
  | archive entries => cases hd
  | database d => rfl

theorem Host.Indexable.refilled {root : Path} {version : String} {h : Host} {dir database : Path}
    (hh : h.Indexable root version dir database) (hthere : h.isFile database = .ok true)
    {old : Database} (hold : old.isReadable) (time : Nat) :
    (h.refilled database (.database old) time).Indexable root version dir database ∧
      below (h.refilled database (.database old) time) dir = below h dir := by
  obtain ⟨h₁, d, hstart, hready⟩ := hh.ready
  obtain rfl : h₁ = h := by
    have hhost := start_host_of_isFile hthere
    rw [hstart] at hhost
    exact hhost
  obtain ⟨place, hopens⟩ := hready.opens
  obtain ⟨content, oldTime, hget⟩ := FileTree.isFile_iff.mp hopens.file
  have hplain : content.plain = [] := by
    have hview := ok_unique (view_outcome hready.draft hopens hget) hready.view
    cases hdatabase : content.database? with
    | some found => exact Content.plain_of_database? hdatabase
    | none =>
      have hbad := hready.readable
      rw [← hview, hdatabase] at hbad
      cases hbad
  have htext : (Content.database old).text = content.text := by
    rw [Content.text, Content.text, hplain]
    rfl
  have hne : place ≠ [] := FileTree.place_ne_nil_of_get? h₁.files (by simp [hget])
  have hgrows := grows_refilled hopens.leads hopens.file (.database old) time
  have hopens' := hopens.mono hgrows
  have hdirs := isDir_refilled hopens.leads hopens.file (.database old) time
  have hfiles := filesBelow_refilled hopens.leads hget htext time dir ".java"
  have houtput : Layout.SameOutput h₁ (h₁.refilled database (.database old) time) :=
    fun s _ => hdirs _
  have hfile : (h₁.refilled database (.database old) time).files.get? place =
      some (.file (.database old) time) := by
    rw [refilled_eq hopens.leads]
    simp only [FileTree.get?_put _ hne, if_pos]
  refine ⟨⟨?_, ?_, ?_, ?_, hh.label, _, old, start_outcome_of_opens hopens', ?_⟩, ?_⟩
  · exact (Layout.agrees_sources hgrows.preserves houtput root version).outcome_ok
      (Layout.reads_sources root version) hh.sources
  · rw [hdirs, hh.isDir]
  · have hempty := congrArg isEmpty hfiles
    rw [isEmpty_map, isEmpty_map] at hempty
    rw [hempty, hh.files]
  · have hworkspace := Layout.agrees_workspace hgrows.preserves houtput root
    exact (Layout.agrees_catalogue hgrows.preserves hworkspace version).outcome_ok
      (Layout.reads_catalogue root version) hh.catalogue
  · exact ⟨rfl, isBlocked_of_grows hgrows rfl rfl hready.free, ⟨place, hopens'⟩,
      view_outcome rfl hopens' hfile, hold⟩
  · rw [below_eq, below_eq, hfiles]

theorem Writer.counts_eq {writer : Writer} {types : List (String × Java.TypeDecl)}
    (hadd : start.addTypes types = .ok writer) (hsound : writer.Sound) :
    writer.catalogue.counts = ((types.map fun t => t.2.key).toFinset.card,
      (types.flatMap fun t => t.2.methods).length,
      (types.flatMap fun t => t.2.constants).length) := by
  have htallies := addTypes_tallies hadd
  have hclasses : writer.catalogue.classes.rows.length =
      (types.map fun t => t.2.key).toFinset.card := by
    rw [← htallies.keys, toFinset_card_of_nodup hsound.catalogue.keys, length_map]
  rw [Catalogue.counts, hclasses, htallies.methods, htallies.constants]

/-- A run that succeeds tells how many names and members its types have and stores an entry for
each, over any database and however it is cut by commits. -/
theorem indexVersion_counts {root : Path} {version : String} {h h' : Host}
    {classes methods constants : Nat} {dir database : Path}
    {types : List (String × Java.TypeDecl)}
    (hindex : (indexVersion root version).outcome h =
      (.ok (.ok (classes, methods, constants)), h'))
    (hdir : (Layout.sources root version).outcome h = (.ok dir, h))
    (hdatabase : (Layout.catalogue root version).outcome h = (.ok database, h))
    (htypes : SourceFile.types (SourceFile.below h dir) = types) :
    classes = (types.map fun t => t.2.key).toFinset.card ∧
    methods = (types.flatMap fun t => t.2.methods).length ∧
    constants = (types.flatMap fun t => t.2.constants).length ∧
    (∃ c, (queryDatabase database fun d => .ok d.api).outcome h' = (.ok (some c), h') ∧
      c.entries.length = types.length + methods + constants) ∧
    (h.isFile database = .ok true → ∀ old : Database, old.isReadable = true → ∀ time,
      ∃ g', (indexVersion root version).outcome (h.refilled database (.database old) time) =
        (.ok (.ok (classes, methods, constants)), g')) ∧
    ∀ batches, batches.flatten = SourceFile.below h dir →
      ∃ g', (Connection.start database >>= (·.indexInBatches batches)).outcome h =
        (.ok (classes, methods, constants), g') := by
  obtain ⟨dir', database', hh⟩ := indexable_of_indexVersion hindex
  obtain rfl := ok_unique hh.sources hdir
  obtain rfl := ok_unique hh.catalogue hdatabase
  obtain ⟨writer, d, h₁, houtcome, hdone⟩ := hh.indexVersion_outcome
  rw [houtcome] at hindex
  obtain ⟨hstats, rfl⟩ := Prod.mk.inj hindex
  have hcounts : writer.catalogue.counts = (classes, methods, constants) :=
    Except.ok.inj (Except.ok.inj hstats)
  have htold := Writer.counts_eq hdone.adds hdone.sound
  rw [htypes, hcounts] at htold
  obtain ⟨hclasses, hmembers⟩ := Prod.mk.inj htold
  obtain ⟨hmethods, hconstants⟩ := Prod.mk.inj hmembers
  refine ⟨hclasses, hmethods, hconstants, ⟨writer.catalogue, ?_, ?_⟩, ?_, ?_⟩
  · rw [queryDatabase_outcome hdone.stores, hdone.api]
  · have hentries := (Writer.addTypes_tallies hdone.adds).entries
    obtain ⟨-, hm, hk⟩ : _ ∧ writer.catalogue.methods.rows.length = methods ∧
        writer.catalogue.constants.rows.length = constants := by
      simpa [Catalogue.counts] using hcounts
    rw [hentries, hm, hk, htypes]
  -- The second run has the same files, so its writer is the same one.
  · intro hthere old hold time
    obtain ⟨hh', hfiles⟩ := hh.refilled hthere hold time
    obtain ⟨writer', _, g', houtcome', hdone'⟩ := hh'.indexVersion_outcome
    have hadd' := hdone'.adds
    rw [hfiles, hdone.adds] at hadd'
    obtain rfl : writer = writer' := Except.ok.inj hadd'
    exact ⟨g', by rw [houtcome', hcounts]⟩
  · intro batches hbatches
    obtain ⟨h₂, d₂, hstart, hready⟩ := hh.ready
    obtain ⟨writer', g', hadd', hrun⟩ := hready.indexInBatches_outcome batches
    rw [hbatches, hdone.adds] at hadd'
    obtain rfl : writer = writer' := Except.ok.inj hadd'
    exact ⟨g', by rw [bind_of_ok hstart, hrun, hcounts]⟩

def twinWorkspace : Host where
  files := ⟨[
    (["w"], .directory), (["w", "workspace"], .directory),
    (["w", "workspace", "sources"], .directory),
    (["w", "workspace", "sources", "release"], .directory),
    (["w", "workspace", "sources", "release", "A.java"],
      .file (.ofText "package p;\npublic class A \x7b\n  public int size();\n\x7d\n") 5),
    (["w", "workspace", "sources", "release", "B.java"],
      .file (.ofText ("package p;\npublic class A \x7b\n  public static final int N = 1;\n" ++
        "  public int size();\n\x7d\n")) 5),
    (["w", "workspace", "sources", "release", "C.java"], .directory),
    (["w", "workspace", "db"], .directory),
    (["w", "workspace", "db", "prism_api_release.db"], .file (.database { api := some {
      classes := ⟨[⟨1, "old", "Gone", "class", "Gone.java", none, none⟩], 1⟩ } }) 6)]⟩

theorem types_twinWorkspace :
    types (below twinWorkspace
      (.absolute ["w", "workspace", "sources", "release"])) =
      [("A.java", smallType), ("B.java", { smallType with
        constants := [⟨"N", "int", "1", "public static final int N = 1;"⟩] })] := by
  have hlocate : twinWorkspace.files.locate twinWorkspace.here
      (.absolute ["w", "workspace", "sources", "release"]) =
      .ok ["w", "workspace", "sources", "release"] := rfl
  simp only [below, Host.filesBelow, hlocate, FileTree.below]
  rw [mergeSort_of_pairwise (by decide +kernel)]
  decide +kernel

theorem indexable_twinWorkspace :
    twinWorkspace.Indexable (.absolute ["w"]) "release"
      (.absolute ["w", "workspace", "sources", "release"]) smallDatabase where
  sources := rfl
  isDir := rfl
  files := by
    have htypes := types_twinWorkspace
    cases hfiles : twinWorkspace.filesBelow
        (.absolute ["w", "workspace", "sources", "release"]) ".java" with
    | nil => simp [types, below, hfiles] at htypes
    | cons f files => rfl
  catalogue := rfl
  label := Console.readMarkup_indexing (by decide)
  ready := by
    have hstart : (start smallDatabase).outcome twinWorkspace =
        (.ok { path := smallDatabase }, twinWorkspace) := rfl
    obtain ⟨-, -, hopens⟩ := start_outcome_ok hstart
    exact ⟨twinWorkspace, _, hstart, rfl, rfl, hopens, rfl, rfl⟩

/-- Two types of one name have one class, two methods and a constant there, and five entries, and an
empty database leads to the same numbers. -/
theorem indexVersion_counts_twinWorkspace :
    ∃ h' c g', (indexVersion (.absolute ["w"]) "release").outcome twinWorkspace =
        (.ok (.ok (1, 2, 1)), h') ∧
      (queryDatabase smallDatabase fun d => .ok d.api).outcome h' = (.ok (some c), h') ∧
      c.entries.length = 5 ∧
      (indexVersion (.absolute ["w"]) "release").outcome
        (twinWorkspace.refilled smallDatabase (.database {}) 9) = (.ok (.ok (1, 2, 1)), g') := by
  obtain ⟨writer, _, h', hindex, hdone⟩ := indexable_twinWorkspace.indexVersion_outcome
  have hadd := hdone.adds
  rw [types_twinWorkspace] at hadd
  have hcounts : writer.catalogue.counts = (1, 2, 1) := by
    rw [Writer.counts_eq hadd hdone.sound]
    decide +kernel
  rw [hcounts] at hindex
  obtain ⟨-, -, -, ⟨c, hquery, hentries⟩, hagain, -⟩ :=
    indexVersion_counts hindex indexable_twinWorkspace.sources indexable_twinWorkspace.catalogue
      types_twinWorkspace
  obtain ⟨g', hagain⟩ := hagain rfl {} rfl 9
  exact ⟨h', c, g', hindex, hquery, hentries, hagain⟩

end JarAtlas
