import JarAtlas.Proofs.Explore.Parents
import Mathlib.Data.Finset.Card
import Mathlib.Data.List.Perm.Subperm

/-!
The ancestors of classes after the catalogue of a version was built. The way up from a class leads
through different classes to one whose parent is refused, or there is no such class on it. So asking
for the hierarchy of a class fails exactly when a class on the way up has a parent that is refused.
-/

namespace JarAtlas

open JarAtlas.Action Hierarchy ClassRow

def Database.Extends (d : Database) (row parent : ClassRow) : Prop :=
  ∃ text, row.parentText? = some text ∧
    Hierarchy.parent? d text row.package = .ok (some parent)

/-- As many steps from a class to its parent lead from one class to another. -/
inductive Database.Climbs (d : Database) : Nat → ClassRow → ClassRow → Prop where
  | here (row : ClassRow) : Climbs d 0 row row
  | up {n : Nat} {row parent top : ClassRow} (hstep : d.Extends row parent)
      (hrest : Climbs d n parent top) : Climbs d (n + 1) row top

namespace Database

variable {d : Database} {c : Catalogue}

theorem Extends.unique {row p q : ClassRow} (hp : d.Extends row p) (hq : d.Extends row q) :
    p = q := by
  obtain ⟨text, htext, hfound⟩ := hp
  obtain ⟨text', htext', hfound'⟩ := hq
  obtain rfl := Option.some.inj (htext.symm.trans htext')
  exact Option.some.inj (Except.ok.inj (hfound.symm.trans hfound'))

theorem mem_of_extends (hapi : d.api = some c) {row parent : ClassRow}
    (hstep : d.Extends row parent) : parent ∈ c.classes.rows := by
  obtain ⟨text, -, hfound⟩ := hstep
  exact mem_of_parent? hapi hfound

namespace Indexes

variable (hd : d.Indexes c)

include hd

theorem not_extends_of_refusal {row parent : ClassRow} {e : FullText.QueryError}
    (hrow : row ∈ c.classes.rows) (hrefusal : c.refusal? row = some e) :
    ¬ d.Extends row parent := by
  rintro ⟨text, htext, hfound⟩
  rw [(hd.parent?_cases hrow htext).1 e hrefusal] at hfound
  exact nomatch hfound

theorem mem_of_climbs {n : Nat} {row top : ClassRow} (hrow : row ∈ c.classes.rows)
    (hclimb : d.Climbs n row top) : top ∈ c.classes.rows := by
  induction hclimb with
  | here row => exact hrow
  | up hstep _ ih => exact ih (mem_of_extends hd.api hstep)

end Indexes

theorem Climbs.length_unique {m n : Nat} {row top : ClassRow}
    (hend : ∀ parent, ¬ d.Extends top parent) (hm : d.Climbs m row top)
    (hn : d.Climbs n row top) : m = n := by
  induction hm generalizing n with
  | here row =>
    cases hn with
    | here => rfl
    | up hstep _ => exact absurd hstep (hend _)
  | up hstep _ ih =>
    cases hn with
    | here => exact absurd hstep (hend _)
    | up hstep' hrest =>
      rw [← hstep.unique hstep'] at hrest
      rw [ih hend hrest]

namespace Indexes

variable (hd : d.Indexes c) {n : Nat} {row top : ClassRow} {e : FullText.QueryError}

include hd

theorem exists_path (hend : ∀ parent, ¬ d.Extends top parent) (hrow : row ∈ c.classes.rows)
    (hclimb : d.Climbs n row top) :
    ∃ path : List ClassRow, path.length = n + 1 ∧ path.Nodup ∧
      ∀ r ∈ path, r ∈ c.classes.rows ∧ ∃ m ≤ n, d.Climbs m r top := by
  induction hclimb with
  | here row => exact ⟨[row], rfl, List.nodup_singleton _, by simpa using ⟨hrow, .here row⟩⟩
  | @up n row parent top hstep hrest ih =>
    obtain ⟨path, hlength, hnodup, hpath⟩ := ih hend (mem_of_extends hd.api hstep)
    refine ⟨row :: path, by rw [List.length_cons, hlength], List.nodup_cons.mpr ⟨?_, hnodup⟩, ?_⟩
    -- A class that came again would be at two distances from the top.
    · intro hmem
      obtain ⟨-, m, hm, hclimb⟩ := hpath row hmem
      have hsame := hclimb.length_unique hend (.up hstep hrest)
      omega
    · intro r hr
      rcases List.mem_cons.mp hr with rfl | hr
      · exact ⟨hrow, n + 1, Nat.le_refl _, .up hstep hrest⟩
      · obtain ⟨hmem, m, hm, hclimb⟩ := hpath r hr
        exact ⟨hmem, m, Nat.le_succ_of_le hm, hclimb⟩

theorem length_lt (hend : ∀ parent, ¬ d.Extends top parent) (hrow : row ∈ c.classes.rows)
    (hclimb : d.Climbs n row top) : n < c.classes.rows.length := by
  obtain ⟨path, hlength, hnodup, hpath⟩ := hd.exists_path hend hrow hclimb
  have hle := (hnodup.subperm fun r hr => (hpath r hr).1).length_le
  omega

/-- The walk fails at a class whose parent is refused. It gets there if there is fuel for the steps
and the names that it has passed are not ahead. -/
theorem ancestorsFrom_of_refusal (hrow : row ∈ c.classes.rows) (hclimb : d.Climbs n row top)
    (hrefusal : c.refusal? top = some e) (fuel : Nat) (hfuel : n < fuel)
    (seen : List (String × String))
    (hseen : ∀ r ∈ c.classes.rows, r.key ∈ seen → ∃ m, n ≤ m ∧ d.Climbs m r top) :
    ancestorsFrom d fuel seen row = .error (.store (.query e)) := by
  -- Along the way, every class that was passed is farther from the top than the current one. The
  -- distance is unique, so the next class was not passed before.
  induction hclimb generalizing fuel seen with
  | here row =>
    obtain ⟨fuel, rfl⟩ := Nat.exists_eq_add_of_lt hfuel
    obtain ⟨text, htext, -⟩ := Option.bind_eq_some_iff.mp hrefusal
    have hfails := (hd.parent?_cases hrow htext).1 e hrefusal
    rw [parentText?] at htext
    simp only [ancestorsFrom, htext, hfails]
    rfl
  | @up n row parent top hstep hrest ih =>
    obtain ⟨fuel, rfl⟩ := Nat.exists_eq_add_of_lt hfuel
    have hparent := mem_of_extends hd.api hstep
    have hend (next : ClassRow) : ¬ d.Extends top next :=
      hd.not_extends_of_refusal (hd.mem_of_climbs hparent hrest) hrefusal
    have hnew : seen.contains parent.key = false := by
      rw [← Bool.not_eq_true, List.contains_iff_mem]
      intro hmem
      obtain ⟨m, hm, hclimb⟩ := hseen parent hparent hmem
      have hsame := hclimb.length_unique hend hrest
      omega
    have hmore := ih hparent hrefusal (n + 1 + fuel) (by omega) (parent.key :: seen)
      fun r hr hkey => ?_
    · obtain ⟨text, htext, hfound⟩ := hstep
      rw [parentText?] at htext
      simp only [ancestorsFrom, htext, hfound, hnew, hmore, bind, Except.bind,
        Bool.false_eq_true, if_false]
    · rcases List.mem_cons.mp hkey with hkey | hkey
      · rw [List.inj_on_of_nodup_map hd.keys hr hparent hkey]
        exact ⟨n, Nat.le_refl _, hrest⟩
      · obtain ⟨m, hm, hclimb⟩ := hseen r hr hkey
        exact ⟨m, by omega, hclimb⟩

theorem ancestorsFrom_of_answered (hrow : row ∈ c.classes.rows)
    (hnone : ∀ n top, d.Climbs n row top → c.refusal? top = none) (fuel : Nat)
    (seen : List (String × String)) :
    ∃ tree, ancestorsFrom d fuel seen row = .ok tree := by
  induction fuel generalizing seen row with
  | zero => exact ⟨[], rfl⟩
  | succ fuel ih =>
    cases htext : row.parentText? with
    | none =>
      rw [parentText?] at htext
      exact ⟨[], by simp only [ancestorsFrom, htext]⟩
    | some text =>
      obtain ⟨found, hfound, -⟩ := (hd.parent?_cases hrow htext).2 (hnone 0 row (.here row))
      cases found with
      | none =>
        rw [parentText?] at htext
        exact ⟨[.external text], by simp only [ancestorsFrom, htext, hfound]; rfl⟩
      | some parent =>
        have hstep : d.Extends row parent := ⟨text, htext, hfound⟩
        obtain ⟨tree, htree⟩ := ih (mem_of_extends hd.api hstep)
          (fun n top hclimb => hnone (n + 1) top (.up hstep hclimb)) (parent.key :: seen)
        rw [parentText?] at htext
        simp only [ancestorsFrom, htext, hfound, htree, bind, Except.bind]
        split
        · exact ⟨[], rfl⟩
        · exact ⟨.known parent :: tree, rfl⟩

end Indexes

end Database

/-! ### The answer -/

def Hierarchy.answer (row : ClassRow) (tree : List Ancestor) : Json :=
  .obj [
    ("class_name", .str row.name),
    ("package", .str row.package),
    ("kind", .str row.kind),
    ("parent_tree", .arr (tree.map Ancestor.toJson)),
    ("interfaces", .arr ((interfaceNames row).map .str))]

/-- Asks for the hierarchy of a class in the catalogue of a version. -/
def Action.classHierarchy (root : Path) (version package name : String) : Action Json := do
  showHierarchy (← Layout.catalogue root version) (.str package) (.str name)

theorem classHierarchy_outcome {root database : Path} {version : String} {h : Host} {d : Database}
    {c : Catalogue} (hd : d.Indexes c)
    (hplace : (Layout.catalogue root version).outcome h = (.ok database, h))
    (hstores : h.Stores database d) {row : ClassRow} (hrow : row ∈ c.classes.rows) :
    (classHierarchy root version row.package row.name).outcome h =
      ((ancestorsFrom d (c.classes.rows.length + 2) [row.key] row).map
        (answer row), h) := by
  obtain ⟨hpackage, hname⟩ := (hd.extracted row hrow).strip_key
  have hdetails : ∃ found, d.details (.str row.package) (.str row.name) = .ok (some found) ∧
      found.row = row := by
    have hfind : c.findClass? row.package row.name = some row :=
      (Catalogue.findClass?_eq_some_iff hd.keys).mpr ⟨hrow, rfl⟩
    rw [← Catalogue.map_row_details?] at hfind
    obtain ⟨found, hfound, hsame⟩ := Option.map_eq_some_iff.mp hfind
    exact ⟨found, by rw [Database.details_eq hd.readable hd.api, hpackage, hname, hfound], hsame⟩
  obtain ⟨found, hfound, rfl⟩ := hdetails
  have hwalk : ancestors d (.str found.row.package) (.str found.row.name) found.row =
      ancestorsFrom d (c.classes.rows.length + 2) [found.row.key] found.row := by
    simp only [ancestors, Database.stats, Database.catalogue, Database.part, hd.readable, hd.api]
    rfl
  rw [classHierarchy, bind_of_ok hplace, showHierarchy, queryDatabase_outcome hstores]
  simp only [hfound, hwalk, bind, Except.bind]
  cases ancestorsFrom d (c.classes.rows.length + 2) [found.row.key] found.row <;> rfl

/-- After a successful run, asking for the hierarchy of a class fails with what is wrong with the
first parent on the way up that is refused, and is answered if there is none. A parent without a dot
is refused for a comma, an angle bracket or an operator of queries. -/
theorem classHierarchy_of_indexed {root database : Path} {version : String} {h h' : Host}
    {stats : Nat × Nat × Nat}
    (hindex : (indexVersion root version).outcome h = (.ok (.ok stats), h'))
    (hdatabase : (Layout.catalogue root version).outcome h = (.ok database, h))
    (hplace : (Layout.catalogue root version).outcome h' = (.ok database, h')) :
    ∃ (d : Database) (c : Catalogue),
      (queryDatabase database .ok).outcome h' = (.ok d, h') ∧ d.api = some c ∧
      (∀ row ∈ c.classes.rows, ∀ text, row.parentText? = some text →
        Java.IsParentText text ∧
        ('.' ∉ text.toList → (∃ m ∈ clauseMarks, m ∈ text.toList) → c.refusal? row ≠ none) ∧
        (c.refusal? row ≠ none → '.' ∉ text.toList ∧
          ((∃ m ∈ clauseMarks, m ∈ text.toList) ∨
            ∃ word ∈ Query.terms text.toList, word ∈ FullText.operators))) ∧
      ∀ row ∈ c.classes.rows,
        (∀ n top e, d.Climbs n row top → c.refusal? top = some e →
          (classHierarchy root version row.package row.name).outcome h' =
            (.error (.store (.query e)), h')) ∧
        ((∀ n top, d.Climbs n row top → c.refusal? top = none) →
          ∃ tree, (classHierarchy root version row.package row.name).outcome h' =
            (.ok (Hierarchy.answer row tree), h')) := by
  obtain ⟨c, d, hd, -, hstores⟩ := indexVersion_indexes hindex hdatabase
  refine ⟨d, c, queryDatabase_outcome hstores _, hd.api, fun row hrow text htext => ⟨?_, ?_, ?_⟩,
    fun row hrow => ⟨?_, ?_⟩⟩
  · exact (hd.extracted row hrow).isParentText text (ClassRow.parentText?_eq_some htext).1
  · exact hd.refusal?_ne_none_of_clauseMark hrow htext
  · exact hd.of_refusal?_ne_none hrow htext
  · intro n top e hclimb hrefusal
    have htop := hd.mem_of_climbs hrow hclimb
    have hlength := hd.length_lt (fun _ => hd.not_extends_of_refusal htop hrefusal) hrow hclimb
    have hfails := hd.ancestorsFrom_of_refusal hrow hclimb hrefusal
      (c.classes.rows.length + 2) (by omega) [row.key] fun r hr hkey => ?_
    · rw [classHierarchy_outcome hd hplace hstores hrow, hfails]
      rfl
    · rw [List.inj_on_of_nodup_map hd.keys hr hrow (List.mem_singleton.mp hkey)]
      exact ⟨n, Nat.le_refl _, hclimb⟩
  · intro hnone
    obtain ⟨tree, htree⟩ := hd.ancestorsFrom_of_answered hrow hnone (c.classes.rows.length + 2)
      [row.key]
    refine ⟨tree, ?_⟩
    rw [classHierarchy_outcome hd hplace hstores hrow, htree]
    rfl

def pairWorkspace : Host where
  files := ⟨[
    (["w"], .directory), (["w", "workspace"], .directory),
    (["w", "workspace", "sources"], .directory),
    (["w", "workspace", "sources", "release"], .directory),
    (["w", "workspace", "sources", "release", "A.java"],
      .file (.ofText "package p;\npublic interface I extends A, B \x7b\n\x7d\n") 5)]⟩

theorem indexVersion_pairWorkspace :
    ∃ h', (indexVersion (.absolute ["w"]) "release").outcome pairWorkspace =
      (.ok (.ok (1, 0, 0)), h') := by
  have hstats : ((indexVersion (.absolute ["w"]) "release").outcome pairWorkspace).1 =
      .ok (.ok (1, 0, 0)) := by
    simp only [indexVersion, Console.withProgress_release]
    decide +kernel
  exact ⟨_, Prod.ext hstats rfl⟩

def pairType : Java.TypeDecl where
  package := "p"
  name := "I"
  kind := .interfaceType
  methods := []
  parent := some "A, B"
  interfaces := none
  constants := []

theorem types_pairWorkspace :
    SourceFile.types (SourceFile.below pairWorkspace
      (.absolute ["w", "workspace", "sources", "release"])) = [("A.java", pairType)] := by
  decide +kernel

/-- Both parents together are searched for as one text there, and its comma is refused. -/
theorem classHierarchy_fails_pairWorkspace :
    ∃ h', (indexVersion (.absolute ["w"]) "release").outcome pairWorkspace =
        (.ok (.ok (1, 0, 0)), h') ∧
      (classHierarchy (.absolute ["w"]) "release" "p" "I").outcome h' =
        (.error (.store (.query (.unexpected [',']))), h') := by
  obtain ⟨h', hindex⟩ := indexVersion_pairWorkspace
  have hdir : (Layout.sources (.absolute ["w"]) "release").outcome pairWorkspace =
      (.ok (.absolute ["w", "workspace", "sources", "release"]), pairWorkspace) := rfl
  have hdatabase : (Layout.catalogue (.absolute ["w"]) "release").outcome pairWorkspace =
      (.ok smallDatabase, pairWorkspace) := rfl
  have houtput : Layout.OutputIsThere pairWorkspace := by
    intro s hs
    exact nomatch hs
  have hplace := Layout.catalogue_of_indexed hindex hdatabase houtput
  obtain ⟨d, c, hstored, hapi, -, hrows⟩ := classHierarchy_of_indexed hindex hdatabase hplace
  obtain ⟨c', hholds, hapi', -⟩ := indexVersion_holds hindex hdir hdatabase (by
    rw [types_pairWorkspace]
    decide)
  obtain ⟨_, d', -, -, -, -, hstores⟩ := indexVersion_joins hindex hdir hdatabase
  obtain rfl : d' = d := ok_unique (queryDatabase_outcome hstores .ok) hstored
  obtain rfl : c' = c := by
    rw [queryDatabase_outcome hstores, hapi] at hapi'
    exact (Option.some.inj (Except.ok.inj (Prod.mk.inj hapi').1)).symm
  have hclasses : c'.classes.rows = [pairType.classRow "A.java" 1] := by
    rw [hholds.classes, types_pairWorkspace]
    rfl
  have hrow : pairType.classRow "A.java" 1 ∈ c'.classes.rows := by
    rw [hclasses]
    exact List.mem_singleton_self _
  have hrefusal : c'.refusal? (pairType.classRow "A.java" 1) = some (.unexpected [',']) := by
    have htext : (pairType.classRow "A.java" 1).parentText? = some "A, B" := by decide +kernel
    have hnone : c'.findClass? (pairType.classRow "A.java" 1).package "A, B" = none := by
      rw [Catalogue.findClass?_eq_none_iff, hclasses]
      decide +kernel
    rw [Catalogue.refusal?_eq htext, hnone]
    decide +kernel
  exact ⟨h', hindex, (hrows _ hrow).1 0 _ _ (.here _) hrefusal⟩

/-!
The walk from a class to its ancestors in any catalogue, whatever its parents are: they may come
back to a class that was passed, through each of the ways in which a parent is looked up. A class
is passed once, so the walk ends after no more steps than there are classes, and the fuel that it
is given is never used up. Where a parent was searched for, the class that is told for it need not
have its name.
-/

open List

variable {c : Catalogue} {seen : List (String × String)} {row : ClassRow}

/-- The walk from a class, with the number of its steps and the ancestors that it tells: it ends at
a class without a parent, at a parent that is not found, and at a class that was passed before. -/
inductive Database.Walks (d : Database) :
    Nat → List (String × String) → ClassRow → List Ancestor → Prop where
  | top {seen : List (String × String)} {row : ClassRow} (htext : row.parentText? = none) :
      Walks d 0 seen row []
  | external {seen : List (String × String)} {row : ClassRow} {text : String}
      (htext : row.parentText? = some text)
      (hnone : Hierarchy.parent? d text row.package = .ok none) :
      Walks d 1 seen row [.external text]
  | again {seen : List (String × String)} {row parent : ClassRow} (hstep : d.Extends row parent)
      (hseen : parent.key ∈ seen) : Walks d 1 seen row []
  | up {n : Nat} {seen : List (String × String)} {row parent : ClassRow} {tree : List Ancestor}
      (hstep : d.Extends row parent) (hnew : parent.key ∉ seen)
      (hrest : Walks d n (parent.key :: seen) parent tree) :
      Walks d (n + 1) seen row (.known parent :: tree)

/-- The names of the catalogue that were not passed yet. -/
def Catalogue.ahead (c : Catalogue) (seen : List (String × String)) : Finset (String × String) :=
  (c.classes.rows.map ClassRow.key).toFinset \ seen.toFinset

theorem Catalogue.card_ahead_cons (hrow : row ∈ c.classes.rows) (hnew : row.key ∉ seen) :
    (c.ahead (row.key :: seen)).card + 1 = (c.ahead seen).card := by
  have herase : c.ahead (row.key :: seen) = (c.ahead seen).erase row.key := by
    rw [ahead, ahead, toFinset_cons, Finset.sdiff_insert]
  have hmem : row.key ∈ c.ahead seen := by
    simp only [ahead, Finset.mem_sdiff, mem_toFinset]
    exact ⟨mem_map_of_mem hrow, hnew⟩
  rw [herase, Finset.card_erase_add_one hmem]

theorem ClassRow.nodup_keys_cons {rows : List ClassRow} (hnew : ∀ r ∈ rows, r.key ∉ row.key :: seen)
    (hnodup : (rows.map key).Nodup) : (row.key :: rows.map key).Nodup := by
  refine nodup_cons.mpr ⟨fun hmem => ?_, hnodup⟩
  obtain ⟨r, hr, hsame⟩ := mem_map.mp hmem
  exact hnew r hr (hsame ▸ mem_cons_self)

namespace Database

variable {d : Database} {c : Catalogue} (hapi : d.api = some c) {seen : List (String × String)}
  {row : ClassRow} {tree : List Ancestor}

include hapi

theorem walks_of_ancestorsFrom {fuel : Nat} (hfuel : (c.ahead seen).card < fuel)
    (htree : ancestorsFrom d fuel seen row = .ok tree) :
    ∃ n, d.Walks n seen row tree := by
  -- A parent that is new leaves one class less ahead, so the fuel that is left is still enough.
  induction fuel generalizing seen row tree with
  | zero => cases hfuel
  | succ fuel ih =>
    cases htext : row.parentText? with
    | none =>
      have hdone := htext
      rw [parentText?] at hdone
      simp only [ancestorsFrom, hdone] at htree
      cases htree
      exact ⟨0, .top htext⟩
    | some text =>
      have hname := htext
      rw [parentText?] at hname
      simp only [ancestorsFrom, hname] at htree
      obtain ⟨found, hfound, hrest⟩ := ok_of_bind htree
      cases found with
      | none =>
        cases hrest
        exact ⟨1, .external htext hfound⟩
      | some parent =>
        have hstep : d.Extends row parent := ⟨text, htext, hfound⟩
        by_cases hseen : parent.key ∈ seen
        · simp only [contains_iff_mem.mpr hseen, if_true] at hrest
          cases hrest
          exact ⟨1, .again hstep hseen⟩
        · simp only [contains_iff_mem, hseen, if_false] at hrest
          obtain ⟨rest, hmore, hlast⟩ := ok_of_bind hrest
          cases hlast
          have hcard := Catalogue.card_ahead_cons (mem_of_extends hapi hstep) hseen
          obtain ⟨n, hwalk⟩ := ih (by omega) hmore
          exact ⟨n + 1, .up hstep hseen hwalk⟩

/-- What a walk tells: different classes of the catalogue that were not passed before it, each the
parent of the one before, and after them at most one parent that is not found. -/
theorem Walks.exists_rows {n : Nat} (hrow : row ∈ c.classes.rows)
    (hwalk : d.Walks n seen row tree) :
    ∃ (rows : List ClassRow) (outside : Option String),
      tree = rows.map .known ++ outside.toList.map .external ∧ n ≤ rows.length + 1 ∧
      (∀ r ∈ rows, r ∈ c.classes.rows ∧ r.key ∉ seen) ∧ (rows.map key).Nodup ∧
      (row :: rows).IsChain fun child parent => child ∈ c.classes.rows ∧ d.Extends child parent := by
  induction hwalk with
  | top => exact ⟨[], none, rfl, by simp, by simp, .nil, .singleton _⟩
  | @external _ _ text => exact ⟨[], some text, rfl, by simp, by simp, .nil, .singleton _⟩
  | again => exact ⟨[], none, rfl, by simp, by simp, .nil, .singleton _⟩
  | @up n seen row parent tree hstep hnew _ ih =>
    have hparent := mem_of_extends hapi hstep
    obtain ⟨rows, outside, rfl, hsteps, hrows, hnodup, hchain⟩ := ih hparent
    refine ⟨parent :: rows, outside, rfl, Nat.succ_le_succ hsteps, ?_, ?_,
      .cons_cons ⟨hrow, hstep⟩ hchain⟩
    · rw [forall_mem_cons]
      refine ⟨⟨hparent, hnew⟩, fun r hr => ?_⟩
      obtain ⟨hmem, hfresh⟩ := hrows r hr
      exact ⟨hmem, fun hseen => hfresh (mem_cons_of_mem _ hseen)⟩
    · exact nodup_keys_cons (fun r hr => (hrows r hr).2) hnodup

end Database

theorem Catalogue.card_ahead_le (c : Catalogue) (seen : List (String × String)) :
    (c.ahead seen).card ≤ c.classes.rows.length := by
  have hkeys := toFinset_card_le (c.classes.rows.map key)
  rw [length_map] at hkeys
  exact (Finset.card_le_card Finset.sdiff_subset).trans hkeys

variable {d : Database} {tree : List Ancestor}

theorem Database.ancestors_ok (hreadable : d.isReadable) (hapi : d.api = some c)
    (hrow : row ∈ c.classes.rows)
    (htree : ancestors d (.str row.package) (.str row.name) row = .ok tree) :
    ∃ (rows : List ClassRow) (outside : Option String) (n : Nat),
      tree = rows.map .known ++ outside.toList.map .external ∧ d.Walks n [row.key] row tree ∧
      n ≤ c.classes.rows.length ∧ (∀ r ∈ rows, r ∈ c.classes.rows) ∧
      (row.key :: rows.map key).Nodup := by
  obtain ⟨counts, hstats, htree⟩ := ok_of_bind htree
  obtain rfl : c.counts = counts := by
    simp only [stats, catalogue, part, hreadable, hapi] at hstats
    exact Except.ok.inj hstats
  have hfuel : (c.ahead [row.key]).card < c.counts.1 + 2 :=
    Nat.lt_of_le_of_lt (c.card_ahead_le _) (by simp [Catalogue.counts])
  obtain ⟨n, hwalk⟩ := walks_of_ancestorsFrom hapi hfuel htree
  obtain ⟨rows, outside, hform, hsteps, hrows, hnodup, -⟩ := hwalk.exists_rows hapi hrow
  have hall := nodup_keys_cons (fun r hr => (hrows r hr).2) hnodup
  -- Each step but the last one tells a class, and with the first one these are different rows.
  have hsub : (row.key :: rows.map key) ⊆ c.classes.rows.map key := by
    rw [cons_subset]
    exact ⟨mem_map_of_mem hrow, map_subset _ fun r hr => (hrows r hr).1⟩
  have hlength := (hall.subperm hsub).length_le
  simp only [length_cons, length_map] at hlength
  exact ⟨rows, outside, n, hform, hwalk, by omega, fun r hr => (hrows r hr).1, hall⟩

def Hierarchy.missing (package name : String) : Json :=
  Problem.toJson ⟨"not_found", .str ("Class " ++ package ++ "." ++ name ++ " not found."), []⟩

/-- Asking for the hierarchy of a class ends, however its parents lead to each other. Its ancestors
are different classes of the catalogue, and after them at most one parent that is not there. -/
theorem classHierarchy_walks {root : Path} {version package name : String} {answer : Json}
    {h h' : Host} (hpackage : Text.strip package = package) (hname : Text.strip name = name)
    (hrun : (classHierarchy root version package name).outcome h = (.ok answer, h')) :
    ∃ (database : Path) (d : Database) (c : Catalogue),
      (Layout.catalogue root version).outcome h = (.ok database, h) ∧
      (queryDatabase database .ok).outcome h' = (.ok d, h') ∧ d.api = some c ∧
      ((c.findClass? package name = none ∧ answer = Hierarchy.missing package name) ∨
        ∃ (row : ClassRow) (rows : List ClassRow) (outside : Option String) (n : Nat),
          row ∈ c.classes.rows ∧ row.key = (package, name) ∧
          answer = Hierarchy.answer row (rows.map .known ++ outside.toList.map .external) ∧
          d.Walks n [row.key] row (rows.map .known ++ outside.toList.map .external) ∧
          n ≤ c.classes.rows.length ∧ (∀ r ∈ rows, r ∈ c.classes.rows) ∧
          (row.key :: rows.map ClassRow.key).Nodup) := by
  obtain ⟨database, hplace, hshow⟩ := (Layout.reads_catalogue root version).bind_ok hrun
  obtain ⟨d, hanswer, hlater⟩ := queryDatabase_outcome_ok hshow
  obtain ⟨found, hdetails, hanswer⟩ := ok_of_bind hanswer
  obtain ⟨c, p, n, hreadable, hapi, hp, hn, hfound⟩ := Database.details_ok hdetails
  have hlookup : c.findClass? package name = found.map (·.row) := by
    rw [← hfound, Catalogue.map_row_details?, ← Except.ok.inj hp, ← Except.ok.inj hn, hpackage,
      hname]
  refine ⟨database, d, c, hplace, hlater .ok, hapi, ?_⟩
  cases found with
  | none => exact .inl ⟨hlookup, (Except.ok.inj hanswer).symm⟩
  | some found =>
    obtain ⟨tree, htree, hanswer⟩ := ok_of_bind hanswer
    have hrow := mem_of_find?_eq_some hlookup
    obtain ⟨rfl, rfl⟩ : found.row.package = package ∧ found.row.name = name := by
      simpa using List.find?_some hlookup
    obtain ⟨rows, outside, n, rfl, hwalk, hsteps, hrows, hnodup⟩ :=
      Database.ancestors_ok hreadable hapi hrow htree
    exact .inr ⟨found.row, rows, outside, n, hrow, rfl, (Except.ok.inj hanswer).symm, hwalk,
      hsteps, hrows, hnodup⟩

def ringFirst : ClassRow := ⟨1, "p", "A", "class", "A.java", some "B", none⟩

def ringSecond : ClassRow := ⟨2, "p", "B", "class", "B.java", some "q.C", none⟩

def ringThird : ClassRow := ⟨3, "q", "C", "class", "C.java", some "A", none⟩

def ringCatalogue : Catalogue where
  classes := ⟨[ringFirst, ringSecond, ringThird], 3⟩
  entries := [⟨⟨.text "p", .text "A", .text "class", .null, .null, .null, .null, .null, .null⟩, 1⟩]

theorem classHierarchy_ringCatalogue :
    (classHierarchy (.absolute ["w"]) "release" "p" "A").outcome (releaseMachine ringCatalogue) =
      (.ok (answer ringFirst [.known ringSecond, .known ringThird]),
        releaseMachine ringCatalogue) := by
  have hplace : (Layout.catalogue (.absolute ["w"]) "release").outcome
      (releaseMachine ringCatalogue) = (.ok smallDatabase, releaseMachine ringCatalogue) := rfl
  have hdetails : Database.details { api := some ringCatalogue } (.str "p") (.str "A") =
      .ok (some ⟨ringFirst, [], []⟩) := by decide +kernel
  have hancestors : ancestors { api := some ringCatalogue } (.str "p") (.str "A")
      ringFirst = .ok [.known ringSecond, .known ringThird] := by decide +kernel
  rw [classHierarchy, bind_of_ok hplace, showHierarchy,
    queryDatabase_outcome (stores_releaseMachine _)]
  simp only [hdetails, hancestors, bind, Except.bind]
  rfl

/-- The walk in a ring of three classes ends after three steps at most. -/
theorem classHierarchy_walks_ringCatalogue :
    ∃ (row : ClassRow) (tree : List Ancestor) (n : Nat),
      (classHierarchy (.absolute ["w"]) "release" "p" "A").outcome
          (releaseMachine ringCatalogue) =
        (.ok (Hierarchy.answer row tree), releaseMachine ringCatalogue) ∧
      row ∈ ringCatalogue.classes.rows ∧ row.key = ("p", "A") ∧
      Database.Walks { api := some ringCatalogue } n [row.key] row tree ∧ n ≤ 3 := by
  have hrun := classHierarchy_ringCatalogue
  obtain ⟨database, d, c, hplace, hstored, hapi, hcases⟩ :=
    classHierarchy_walks (by decide) (by decide) hrun
  obtain rfl : database = smallDatabase := ok_unique hplace rfl
  obtain rfl := ok_unique hstored (queryDatabase_outcome (stores_releaseMachine _) .ok)
  obtain rfl := Option.some.inj hapi
  rcases hcases with ⟨hnone, -⟩ | ⟨row, rows, outside, n, hrow, hkey, hanswer, hwalk, hsteps, -⟩
  · have hthere : (ringCatalogue.findClass? "p" "A").isSome = true := by decide +kernel
    rw [hnone] at hthere
    cases hthere
  · rw [hanswer] at hrun
    exact ⟨row, _, n, hrun, hrow, hkey, hwalk, hsteps⟩

/-! ### The names of ancestors -/

/-- After a successful run, each class in the answer for a hierarchy is the one that the parent text
before it means exactly if one class has the name wherever a search was made. -/
theorem classHierarchy_soundStep_iff {root database : Path} {version : String} {h h' : Host}
    {stats : Nat × Nat × Nat}
    (hindex : (indexVersion root version).outcome h = (.ok (.ok stats), h'))
    (hdatabase : (Layout.catalogue root version).outcome h = (.ok database, h))
    (hplace : (Layout.catalogue root version).outcome h' = (.ok database, h')) :
    ∃ (d : Database) (c : Catalogue),
      (queryDatabase database .ok).outcome h' = (.ok d, h') ∧ d.api = some c ∧
      ∀ row ∈ c.classes.rows, ∀ answer h'',
        (classHierarchy root version row.package row.name).outcome h' = (.ok answer, h'') →
        ∃ (rows : List ClassRow) (outside : Option String),
          answer = Hierarchy.answer row (rows.map .known ++ outside.toList.map .external) ∧
          (row :: rows).IsChain fun child parent => parent ∈ c.classes.rows ∧
            ∃ text, child.parentText? = some text ∧
              (c.SoundStep text child parent ↔ (c.Searches child text →
                ∃! other, other ∈ c.classes.rows ∧ other.name = text)) ∧
              (c.Searches child text → parent.name ≠ text →
                (∀ other ∈ c.classes.rows, other.name ≠ text) ∧
                  ∃ e, c.asked text {} = [e] ∧ parent.Owns e) := by
  obtain ⟨c, d, hd, hlisted, hstores⟩ := indexVersion_indexes hindex hdatabase
  refine ⟨d, c, queryDatabase_outcome hstores _, hd.api, fun row hrow answer h'' hrun => ?_⟩
  rw [classHierarchy_outcome hd hplace hstores hrow] at hrun
  cases htree : Hierarchy.ancestorsFrom d (c.classes.rows.length + 2) [row.key] row with
  | error e =>
    rw [htree] at hrun
    cases (Prod.mk.inj hrun).1
  | ok tree =>
    rw [htree] at hrun
    obtain rfl : Hierarchy.answer row tree = answer := Except.ok.inj (Prod.mk.inj hrun).1
    have hfuel := Nat.lt_of_le_of_lt (c.card_ahead_le [row.key])
      (by omega : c.classes.rows.length < c.classes.rows.length + 2)
    obtain ⟨n, hwalk⟩ := Database.walks_of_ancestorsFrom hd.api hfuel htree
    obtain ⟨rows, outside, rfl, -, -, -, hchain⟩ := hwalk.exists_rows hd.api hrow
    refine ⟨rows, outside, rfl, hchain.imp ?_⟩
    rintro child parent ⟨hchild, hstep⟩
    have hparent := Database.mem_of_extends hd.api hstep
    obtain ⟨text, htext, hfound⟩ := hstep
    exact ⟨hparent, text, htext, hd.soundStep_iff hchild htext hfound hlisted,
      hd.alone_of_name_ne hchild htext hfound hlisted⟩

def strangerWorkspace : Host where
  files := ⟨[
    (["w"], .directory), (["w", "workspace"], .directory),
    (["w", "workspace", "sources"], .directory),
    (["w", "workspace", "sources", "release"], .directory),
    (["w", "workspace", "sources", "release", "A.java"], .file (.ofText
      "package p;\npublic class A extends B \x7b\x7d\npublic class C \x7b public int f(B b); \x7d") 5)]⟩

def Hierarchy.told (answer : Json) : List (Option String × Option String) :=
  match answer.get? "parent_tree" with
  | some (.arr items) => items.map fun item =>
    ((item.get? "package").bind Json.text?, (item.get? "class_name").bind Json.text?)
  | _ => []

theorem Hierarchy.told_answer (row : ClassRow) (rows : List ClassRow) (outside : Option String) :
    told (answer row (rows.map .known ++ outside.toList.map .external)) =
      rows.map (fun r => (some r.package, some r.name)) ++
        outside.toList.map fun text => (none, some text) := by
  have htree (tree : List Ancestor) : told (answer row tree) = tree.map fun a =>
      ((a.toJson.get? "package").bind Json.text?,
        (a.toJson.get? "class_name").bind Json.text?) := by
    exact map_map
  rw [htree, map_append, map_map, map_map]
  rfl

def Database.listed (d : Database) : Option (List (String × String × Option String)) :=
  d.api.map fun c => c.classes.rows.map fun row => (row.package, row.name, row.parentText?)

theorem classHierarchy_strangerWorkspace :
    ∃ h' d h₁ answer h'', (indexVersion (.absolute ["w"]) "release").outcome strangerWorkspace =
        (.ok (.ok (2, 1, 0)), h') ∧
      (queryDatabase smallDatabase .ok).outcome h' = (.ok d, h₁) ∧
      d.listed = some [("p", "A", some "B"), ("p", "C", none)] ∧
      (classHierarchy (.absolute ["w"]) "release" "p" "A").outcome h₁ = (.ok answer, h'') ∧
      told answer = [(some "p", some "C")] := by
  have hall : ((do
      let built ← indexVersion (.absolute ["w"]) "release"
      let d ← queryDatabase smallDatabase .ok
      let answer ← classHierarchy (.absolute ["w"]) "release" "p" "A"
      return (built, d.listed, told answer) : Action _).outcome strangerWorkspace).1 =
        .ok (.ok (2, 1, 0), some [("p", "A", some "B"), ("p", "C", none)],
          [(some "p", some "C")]) := by
    simp only [indexVersion, Console.withProgress_release]
    -- Equality of results of this type is decided by more instances than are tried by default.
    set_option synthInstance.maxSize 400 in decide +kernel
  obtain ⟨built, h', hindex, hrest⟩ := bind_ok_iff.mp (Prod.ext hall rfl)
  obtain ⟨d, h₁, hquery, hrest⟩ := bind_ok_iff.mp hrest
  obtain ⟨answer, h'', hrun, hrest⟩ := bind_ok_iff.mp hrest
  obtain ⟨hsame, -⟩ := pure_ok hrest
  obtain ⟨rfl, hanswers⟩ := Prod.mk.inj hsame
  obtain ⟨hclasses, htold⟩ := Prod.mk.inj hanswers
  exact ⟨h', d, h₁, answer, h'', hindex, hquery, hclasses, hrun, htold⟩

/-- The other class is told as the parent there. -/
theorem classHierarchy_soundStep_strangerWorkspace :
    ∃ (h' h'' : Host) (c : Catalogue) (row parent : ClassRow),
      (indexVersion (.absolute ["w"]) "release").outcome strangerWorkspace =
        (.ok (.ok (2, 1, 0)), h') ∧
      (classHierarchy (.absolute ["w"]) "release" "p" "A").outcome h' =
        (.ok (Hierarchy.answer row [.known parent]), h'') ∧
      row.parentText? = some "B" ∧ parent.name = "C" ∧
      ¬ c.SoundStep "B" row parent ∧ ∃ e, c.asked "B" {} = [e] ∧ parent.Owns e := by
  obtain ⟨h', d, h₁, answer, h'', hindex, hquery, hclasses, hrun, htold⟩ :=
    classHierarchy_strangerWorkspace
  have hdatabase : (Layout.catalogue (.absolute ["w"]) "release").outcome strangerWorkspace =
      (.ok smallDatabase, strangerWorkspace) := rfl
  have houtput : Layout.OutputIsThere strangerWorkspace := by
    intro s hs
    cases hs
  have hplace := Layout.catalogue_of_indexed hindex hdatabase houtput
  obtain ⟨d', c, hstored, hapi, hrows⟩ := classHierarchy_soundStep_iff hindex hdatabase hplace
  rw [hstored] at hquery
  obtain ⟨hsame, rfl⟩ := Prod.mk.inj hquery
  obtain rfl := Except.ok.inj hsame
  rw [Database.listed, hapi] at hclasses
  obtain ⟨row, others, hlist, hfirst, hothers⟩ := map_eq_cons_iff.mp (Option.some.inj hclasses)
  obtain ⟨other, rest, rfl, hsecond, hnone⟩ := map_eq_cons_iff.mp hothers
  obtain rfl := map_eq_nil_iff.mp hnone
  simp only [Prod.mk.injEq] at hfirst hsecond
  have hrow : row ∈ c.classes.rows := by
    rw [hlist]
    exact mem_cons_self
  rw [← hfirst.1, ← hfirst.2.1] at hrun
  obtain ⟨rows, outside, rfl, hchain⟩ := hrows row hrow answer h'' hrun
  rw [Hierarchy.told_answer] at htold
  obtain ⟨parent, rfl, rfl, hname⟩ : ∃ parent, rows = [parent] ∧ outside = none ∧
      parent.name = "C" := by
    cases rows with
    | nil => cases outside <;> simp at htold
    | cons parent rows =>
      cases rows with
      | nil => cases outside <;> simp at htold; exact ⟨parent, rfl, rfl, htold.2⟩
      | cons next rows => simp at htold
  obtain ⟨⟨hparent, text, htext, hsound, halone⟩, -⟩ := isChain_cons_cons.mp hchain
  obtain rfl : "B" = text := Option.some.inj (hfirst.2.2.symm.trans htext)
  have hsearch : c.Searches row "B" := by
    refine ⟨by decide, ?_⟩
    rw [Catalogue.findClass?_eq_none_iff, hlist]
    simp [ClassRow.key, hfirst.2.1, hsecond.2.1]
  have hother : parent.name ≠ "B" := by
    rw [hname]
    decide
  rw [hfirst.1, hfirst.2.1] at hrun
  refine ⟨h', h'', c, row, parent, hindex, hrun, htext, hname, fun hsame => ?_,
    (halone hsearch hother).2⟩
  obtain ⟨only, ⟨honly, honlyName⟩, -⟩ := hsound.mp hsame hsearch
  exact (halone hsearch hother).1 only honly honlyName

end JarAtlas
