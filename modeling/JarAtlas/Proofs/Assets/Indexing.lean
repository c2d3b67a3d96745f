import JarAtlas.Assets.Index
import JarAtlas.Proofs.FullText.Found
import JarAtlas.Proofs.Host.Reading
import Mathlib.Data.List.Forall2

/-!
Inserting the assets of an archive. An entry stops the insertion exactly when its name is empty or
when a value that it gives, such as the id in its text, is one that no database can keep. When all
entries can be inserted, each name that is no directory's has one row, however often it occurs.
-/

open List Except

namespace JarAtlas

open Cell

variable {a : NewAsset} {row : Asset} {w : Work}

def Json.isStorable : Json → Bool
  | .int n => Cell.fits n
  | .torn _ => false
  | .misnamed v => v.isStorable
  | .arr _ => false
  | .obj _ => false
  | _ => true

namespace Cell

theorem exists_ofJson_iff (position : Nat) (v : Json) :
    (∃ cell, ofJson position v = .ok cell) ↔ v.isStorable := by
  fun_induction ofJson position v <;> simp_all [Json.isStorable]

variable {position : Nat} {cell : Cell}

theorem eq_of_ofJson_ofNat {n : Nat}
    (hcount : ofJson position (.ofNat n) = .ok cell) : cell = .int (Int.ofNat n) := by
  rw [Json.ofNat, ofJson] at hcount
  split at hcount
  · exact (ok.inj hcount).symm
  · cases hcount

theorem ofJsonsFrom_cons_eq_ok_iff {v : Json} {vs : List Json} {cells : List Cell} :
    ofJsonsFrom position (v :: vs) = .ok (cell :: cells) ↔
      ofJson position v = .ok cell ∧ ofJsonsFrom (position + 1) vs = .ok cells := by
  constructor
  · intro hall
    obtain ⟨first, hfirst, hrest⟩ := ok_of_bind hall
    obtain ⟨others, hothers, hlast⟩ := ok_of_bind hrest
    obtain ⟨rfl, rfl⟩ := cons.inj (ok.inj hlast)
    exact ⟨hfirst, hothers⟩
  · rintro ⟨hfirst, hrest⟩
    simp only [ofJsonsFrom, hfirst, hrest]
    rfl

end Cell

namespace Assets

private theorem foldl_bytes_lt (bs : Bytes) (n : Nat) :
    bs.foldl (fun n b => 256 * n + b.toNat) n < Nat.pow 256 bs.length * (n + 1) := by
  induction bs generalizing n with
  | nil =>
    show n < 1 * (n + 1)
    omega
  | cons b bs ih =>
    have hbyte : b.toNat < 256 := b.toNat_lt
    calc bs.foldl (fun n b => 256 * n + b.toNat) (256 * n + b.toNat)
        < Nat.pow 256 bs.length * (256 * n + b.toNat + 1) := ih _
      _ ≤ Nat.pow 256 bs.length * (256 * (n + 1)) := Nat.mul_le_mul_left _ (by omega)
      _ = Nat.pow 256 bs.length * 256 * (n + 1) := (Nat.mul_assoc _ _ _).symm

theorem isStorable_bigEndian (bs : Bytes) : (Json.ofNat (bigEndian (bs.take 4))).isStorable := by
  have hbound := foldl_bytes_lt (bs.take 4) 0
  have hpow : Nat.pow 256 (bs.take 4).length ≤ Nat.pow 256 4 :=
    Nat.pow_le_pow_right (by omega) (length_take_le 4 bs)
  rw [Nat.zero_add, Nat.mul_one] at hbound
  have hcast : Int.ofNat (bigEndian (bs.take 4)) < 4294967296 :=
    Int.ofNat_lt.mpr (Nat.lt_of_lt_of_le hbound hpow)
  have hpos : 0 ≤ Int.ofNat (bigEndian (bs.take 4)) := Int.natCast_nonneg _
  simp only [Json.ofNat, Json.isStorable, fits, Bool.and_eq_true, decide_eq_true_eq]
  omega

theorem isStorable_dimensions {data : Bytes} {w h : Nat}
    (hsize : pngDimensions data = some (w, h)) :
    (Json.ofNat w).isStorable ∧ (Json.ofNat h).isStorable := by
  unfold pngDimensions at hsize
  split at hsize
  · cases hsize
  · split at hsize
    · cases hsize
    · cases hsize
      exact ⟨isStorable_bigEndian _, isStorable_bigEndian _⟩

/-- Whether all that an entry says about its asset can be kept. -/
def isKeepable (e : ArchiveEntry) : Bool :=
  (Json.ofNat e.content.plain.length).isStorable && (factsOf e).category.isStorable &&
    (factsOf e).internalId.isStorable

theorem isStorable_facts (e : ArchiveEntry) : (factsOf e).width.isStorable ∧
    (factsOf e).height.isStorable ∧ (factsOf e).metadata.isStorable := by
  unfold factsOf
  split
  · exact ⟨rfl, rfl, rfl⟩
  · split
    · exact ⟨rfl, rfl, rfl⟩
    · split
      · split
        · next w h hsize =>
          obtain ⟨hwidth, hheight⟩ := isStorable_dimensions hsize
          exact ⟨hwidth, hheight, rfl⟩
        · exact ⟨rfl, rfl, rfl⟩
      · exact ⟨rfl, rfl, rfl⟩

variable {entries : List ArchiveEntry} {e : ArchiveEntry} {v : String}

theorem newAsset_eq_ok_iff {version : Json} :
    newAsset version e = .ok a ↔
      a.path = .text e.name ∧ a.extension = .text (extensionOf e.name) ∧
      ofJson 3 (.ofNat e.content.plain.length) = .ok a.size ∧
      ofJson 4 (factsOf e).category = .ok a.category ∧
      ofJson 5 (factsOf e).internalId = .ok a.internalId ∧
      ofJson 6 (factsOf e).width = .ok a.width ∧
      ofJson 7 (factsOf e).height = .ok a.height ∧
      ofJson 8 (factsOf e).metadata = .ok a.metadata ∧
      ofJson 9 version = .ok a.version := by
  have hcells : newAsset version e = .ok a ↔ ofJsons [.str e.name, .str (extensionOf e.name),
      .ofNat e.content.plain.length, (factsOf e).category, (factsOf e).internalId,
      (factsOf e).width, (factsOf e).height, (factsOf e).metadata, version] =
      .ok [a.path, a.extension, a.size, a.category, a.internalId, a.width, a.height, a.metadata,
        a.version] := by
    constructor
    · intro hnew
      obtain ⟨cells, hcells, hmatch⟩ := ok_of_bind hnew
      split at hmatch
      · cases hmatch
        exact hcells
      · cases hmatch
    · intro hcells
      simp only [newAsset, hcells]
      rfl
  have hdone (n : Nat) : ofJsonsFrom n [] = .ok [] := rfl
  rw [hcells]
  simp only [ofJsons, ofJsonsFrom_cons_eq_ok_iff, hdone, and_true]
  simp only [ofJson, ok.injEq, eq_comm]

theorem exists_newAsset_iff (v : String) (e : ArchiveEntry) :
    (∃ a, newAsset (.str v) e = .ok a) ↔ isKeepable e := by
  obtain ⟨hwidth, hheight, hmetadata⟩ := isStorable_facts e
  simp only [isKeepable, Bool.and_eq_true]
  constructor
  · rintro ⟨a, hnew⟩
    obtain ⟨-, -, hsize, hcategory, hid, -⟩ := newAsset_eq_ok_iff.mp hnew
    refine ⟨⟨?_, ?_⟩, ?_⟩
    · exact (exists_ofJson_iff 3 _).mp ⟨_, hsize⟩
    · exact (exists_ofJson_iff 4 _).mp ⟨_, hcategory⟩
    · exact (exists_ofJson_iff 5 _).mp ⟨_, hid⟩
  · rintro ⟨⟨hsize, hcategory⟩, hid⟩
    obtain ⟨size, hsize⟩ := (exists_ofJson_iff 3 _).mpr hsize
    obtain ⟨category, hcategory⟩ := (exists_ofJson_iff 4 _).mpr hcategory
    obtain ⟨internalId, hid⟩ := (exists_ofJson_iff 5 _).mpr hid
    obtain ⟨width, hwidth⟩ := (exists_ofJson_iff 6 _).mpr hwidth
    obtain ⟨height, hheight⟩ := (exists_ofJson_iff 7 _).mpr hheight
    obtain ⟨metadata, hmetadata⟩ := (exists_ofJson_iff 8 _).mpr hmetadata
    exact ⟨⟨.text e.name, .text (extensionOf e.name), size, category, internalId, width, height,
      metadata, .text v⟩, newAsset_eq_ok_iff.mpr
        ⟨rfl, rfl, hsize, hcategory, hid, hwidth, hheight, hmetadata, rfl⟩⟩

theorem row_of_newAsset (hnew : newAsset (.str v) e = .ok a) :
    a.row = .ok {
      path := e.name
      extension := extensionOf e.name
      size := .int (Int.ofNat e.content.plain.length)
      version := v
      category := a.category.asText
      internalId := a.internalId.asText
      width := a.width.asWhole
      height := a.height.asWhole
      metadata := a.metadata.asText } := by
  obtain ⟨hpath, hextension, hsize, -, -, -, -, -, hversion⟩ := newAsset_eq_ok_iff.mp hnew
  have hversion : a.version = .text v := (ok.inj hversion).symm
  have hsize := eq_of_ofJson_ofNat hsize
  simp only [NewAsset.row, hpath, hextension, hsize, hversion, asText, require]
  rfl

/-- Whether a name stops no insertion: it is not empty, and the entry that it means, unless it is
a directory, can be kept. -/
def isInsertable (entries : List ArchiveEntry) (name : String) : Bool :=
  name != "" && (isFolderName name || (entryNamed? entries name).all isKeepable)

theorem assetNamed_cases {name : String} (hname : ∃ e ∈ entries, e.name = name) (v : String) :
    (isInsertable entries name = false ∧
      ∃ fault, assetNamed (.str v) entries name = .error fault) ∨
    (isInsertable entries name ∧ isFolderName name ∧
      assetNamed (.str v) entries name = .ok none) ∨
    (isInsertable entries name ∧ isFolderName name = false ∧ ∃ e a,
      entryNamed? entries name = some e ∧ newAsset (.str v) e = .ok a ∧ e.name = name ∧
      assetNamed (.str v) entries name = .ok (some a)) := by
  obtain ⟨e, hfound, hsame⟩ := exists_entryNamed? hname
  by_cases hempty : name = ""
  · subst hempty
    exact .inl ⟨rfl, _, rfl⟩
  · have hnonempty : (name == "") = false := by simpa using hempty
    have hgiven : (name != "") = true := by simpa using hempty
    cases hfolder : isFolderName name with
    | true =>
      refine .inr (.inl ⟨?_, rfl, ?_⟩)
      · simp [isInsertable, hfolder, hgiven]
      · simp [assetNamed, hnonempty, hfolder]
    | false =>
      have hkeep : isInsertable entries name = isKeepable e := by
        simp [isInsertable, hgiven, hfolder, hfound]
      have hasset : assetNamed (.str v) entries name = some <$> newAsset (.str v) e := by
        simp [assetNamed, hnonempty, hfolder, hfound]
      rw [hkeep, hasset]
      cases hnew : newAsset (.str v) e with
      | ok a =>
        have hgood := (exists_newAsset_iff v e).mp ⟨a, hnew⟩
        exact .inr (.inr ⟨hgood, rfl, e, a, hfound, hnew, hsame, rfl⟩)
      | error fault =>
        refine .inl ⟨?_, fault, rfl⟩
        by_contra hgood
        obtain ⟨a, ha⟩ := (exists_newAsset_iff v e).mpr (by simpa using hgood)
        rw [hnew] at ha
        cases ha

def rowNamed? (v : String) (entries : List ArchiveEntry) (name : String) : Option Asset := do
  let e ← entryNamed? entries name
  let a ← (newAsset (.str v) e).toOption
  a.row.toOption

theorem rowNamed?_of_newAsset (hfound : entryNamed? entries name = some e)
    (hnew : newAsset (.str v) e = .ok a) (hrow : a.row = .ok row) :
    rowNamed? v entries name = some row := by
  rw [rowNamed?, hfound]
  show ((newAsset (.str v) e).toOption >>= fun a => a.row.toOption) = some row
  rw [hnew]
  show a.row.toOption = some row
  rw [hrow]
  rfl

end Assets

/-- The full-text entry says what the row says. -/
structure AssetEntry.Mirrors (e : AssetEntry) (a : Asset) : Prop where
  path : e.path = .text a.path
  category : e.category.asText = a.category
  internalId : e.internalId.asText = a.internalId
  metadata : e.metadata.asText = a.metadata

/-- The rows are those that `rowOf` gives to the names, one for each, and the full-text entries
mirror them, one for each time that a name occurs. -/
structure AssetTable.Follows (t : AssetTable) (rowOf : String → Option Asset)
    (names : List String) : Prop where
  nodup : (t.assets.rows.map Asset.path).Nodup
  mem_rows_iff : ∀ a, a ∈ t.assets.rows ↔ a.path ∈ names ∧ rowOf a.path = some a
  entries : List.Forall₂ (fun e name => ∃ a, rowOf name = some a ∧ a.path = name ∧ e.Mirrors a)
    t.entries names

variable {t : AssetTable} {rowOf : String → Option Asset} {names : List String}

theorem AssetTable.insert_eq (t : AssetTable) (hrow : a.row = .ok row) :
    t.insert a = .ok {
      assets := (Table.mk (t.assets.rows.filter fun old => old.path != row.path)
        t.assets.lastId).push fun _ => row
      entries := t.entries ++
        [⟨t.nextEntry, a.path, a.category, a.internalId, a.metadata⟩] } := by
  rw [AssetTable.insert, hrow]
  rfl

theorem nodup_paths_replaced {rows : List Asset} (hnodup : (rows.map Asset.path).Nodup)
    (row : Asset) :
    (((rows.filter fun old => old.path != row.path) ++ [row]).map Asset.path).Nodup := by
  rw [map_append, map_singleton, nodup_append]
  refine ⟨hnodup.sublist (filter_sublist.map _), by simp, ?_⟩
  intro path hpath other hother
  obtain ⟨old, hold, rfl⟩ := mem_map.mp hpath
  obtain rfl := mem_singleton.mp hother
  simpa using (mem_filter.mp hold).2

theorem AssetTable.follows_empty (rowOf : String → Option Asset) :
    ({} : AssetTable).Follows rowOf [] where
  nodup := nodup_nil
  mem_rows_iff a := by
    constructor
    · intro hnone
      cases hnone
    · rintro ⟨hnone, -⟩
      cases hnone
  entries := .nil

theorem AssetTable.Follows.insert (hfollows : t.Follows rowOf names)
    (hrow : a.row = .ok row) (hgives : rowOf row.path = some row)
    (hmirrors : AssetEntry.Mirrors ⟨t.nextEntry, a.path, a.category, a.internalId, a.metadata⟩
      row) : ∃ t', t.insert a = .ok t' ∧ t'.Follows rowOf (names ++ [row.path]) := by
  refine ⟨_, t.insert_eq hrow, nodup_paths_replaced hfollows.nodup row, ?_, ?_⟩
  · intro other
    simp only [Table.push, mem_append, mem_filter, mem_singleton, bne_iff_ne,
      hfollows.mem_rows_iff other]
    constructor
    · rintro (⟨⟨hname, hother⟩, -⟩ | rfl)
      · exact ⟨.inl hname, hother⟩
      · exact ⟨.inr rfl, hgives⟩
    · rintro ⟨hname, hother⟩
      by_cases hsame : other.path = row.path
      · rw [hsame, hgives] at hother
        exact .inr (Option.some.inj hother).symm
      · rcases hname with hname | hname
        · exact .inl ⟨⟨hname, hother⟩, hsame⟩
        · exact absurd hname hsame
  · apply rel_append hfollows.entries
    exact .cons ⟨row, hgives, rfl, hmirrors⟩ .nil

theorem AssetTable.Follows.exists_row (hfollows : t.Follows rowOf names) {name : String}
    (hname : name ∈ names) : ∃ a ∈ t.assets.rows, rowOf name = some a ∧ a.path = name := by
  have hall : List.Forall₂ (fun name _ => (∃ a, rowOf name = some a ∧ a.path = name) ∧ True)
      names t.entries := by
    apply hfollows.entries.flip.imp
    rintro name e ⟨a, hrow, hpath, -⟩
    exact ⟨⟨a, hrow, hpath⟩, trivial⟩
  obtain ⟨a, hrow, rfl⟩ := ((forall₂_and_left names t.entries).mp hall).1 name hname
  exact ⟨a, (hfollows.mem_rows_iff a).mpr ⟨hname, hrow⟩, hrow, rfl⟩

theorem AssetTable.Follows.mem_paths_iff (hfollows : t.Follows rowOf names) {path : String} :
    path ∈ t.assets.rows.map Asset.path ↔ path ∈ names := by
  rw [mem_map]
  constructor
  · rintro ⟨a, ha, rfl⟩
    exact ((hfollows.mem_rows_iff a).mp ha).1
  · intro hname
    obtain ⟨a, ha, -, hpath⟩ := hfollows.exists_row hname
    exact ⟨a, ha, hpath⟩

/-- The database that is worked on can be read, and its table of assets follows the names. -/
def Work.FollowsAssets (w : Work) (rowOf : String → Option Asset) (names : List String) : Prop :=
  w.database.isReadable = true ∧ ∃ t, w.database.assets = some t ∧ t.Follows rowOf names

theorem Work.insertAsset_eq {t' : AssetTable} (hreadable : w.database.isReadable)
    (htable : w.database.assets = some t) (hinsert : t.insert a = .ok t') :
    w.insertAsset a = .ok ⟨{ w.database with assets := some t' },
      (t'.entries.getLast?.map (·.id)).getD 0⟩ := by
  have hpart : w.database.assetTable "assets" = .ok t := by
    simp only [Database.assetTable, Database.part, hreadable, htable]
  rw [Work.insertAsset, hpart]
  show (t.insert a >>= fun t => pure _) = _
  rw [hinsert]
  rfl

namespace Assets

variable {entries : List ArchiveEntry} {name v : String} {names done : List String}

theorem insertAll_cons_cases (hname : ∃ e ∈ entries, e.name = name)
    (hfollows : w.FollowsAssets (rowNamed? v entries) done) (names : List String) :
    (isInsertable entries name = false ∧
      ∃ fault, insertAll (.str v) entries w (name :: names) = .error fault) ∨
    (isInsertable entries name ∧ ∃ w',
      insertAll (.str v) entries w (name :: names) = insertAll (.str v) entries w' names ∧
      w'.FollowsAssets (rowNamed? v entries)
        (done ++ [name].filter fun name => !isFolderName name)) := by
  rw [insertAll]
  rcases assetNamed_cases hname v with ⟨hbad, fault, hasset⟩ | ⟨hgood, hfolder, hasset⟩ |
      ⟨hgood, hfile, e, a, hfound, hnew, rfl, hasset⟩
  · exact .inl ⟨hbad, fault, by rw [hasset]; rfl⟩
  · exact .inr ⟨hgood, w, by rw [hasset]; rfl, by simpa [hfolder] using hfollows⟩
  · obtain ⟨hreadable, t, htable, hfollows⟩ := hfollows
    have hrow := row_of_newAsset hnew
    obtain ⟨hpath, -⟩ := newAsset_eq_ok_iff.mp hnew
    obtain ⟨t', hinsert, hfollows'⟩ := hfollows.insert hrow
      (rowNamed?_of_newAsset hfound hnew hrow) ⟨hpath, rfl, rfl, rfl⟩
    let w' : Work := ⟨{ w.database with assets := some t' },
      (t'.entries.getLast?.map (·.id)).getD 0⟩
    refine .inr ⟨hgood, w', ?_, hreadable, t', rfl, by simpa [hfile] using hfollows'⟩
    rw [hasset]
    show (w.insertAsset a >>= fun w => insertAll (.str v) entries w names) = _
    rw [Work.insertAsset_eq hreadable htable hinsert]
    rfl

/-- Inserting stops at the first name that is not insertable. Otherwise the table follows the names
that are no directories'. -/
theorem insertAll_cases (hnames : ∀ name ∈ names, ∃ e ∈ entries, e.name = name)
    (hfollows : w.FollowsAssets (rowNamed? v entries) done) :
    (names.all (isInsertable entries) = false ∧
      ∃ fault, insertAll (.str v) entries w names = .error fault) ∨
    (names.all (isInsertable entries) ∧ ∃ w', insertAll (.str v) entries w names = .ok w' ∧
      w'.FollowsAssets (rowNamed? v entries)
        (done ++ names.filter fun name => !isFolderName name)) := by
  induction names generalizing w done with
  | nil => exact .inr ⟨rfl, w, rfl, by simpa using hfollows⟩
  | cons name names ih =>
    obtain ⟨hname, hnames⟩ := forall_mem_cons.mp hnames
    rw [all_cons, ← singleton_append, filter_append, ← append_assoc, singleton_append]
    rcases insertAll_cons_cases hname hfollows names with
      ⟨hbad, fault, hstops⟩ | ⟨hgood, w', hstep, hfollows'⟩
    · exact .inl ⟨by simp [hbad], fault, hstops⟩
    · rw [hgood, Bool.true_and, hstep]
      exact ih hnames hfollows'

end Assets

/-!
Building the table of assets. The old tables are dropped, and that is committed, before the first
entry is looked at, and the rows are committed together at the end. So a run through an archive
either completes, with one row for each name that is no directory's, or leaves empty tables.
-/

open JarAtlas.Action Connection Assets ArchiveEntry

namespace Assets

def makeTables (database : Path) : Action Connection := do
  let c ← Connection.start database
  let (_, c) ← c.changeNow fun w => .ok ((), w.makeAssets)
  return c

def fillTables (version : Json) (entries : List ArchiveEntry) (c : Connection) :
    Action (Unit × Connection) :=
  c.changeNow fun w => return ((), ← insertAll version entries w (entries.map ArchiveEntry.name))

variable {database archive : Path} {entries : List ArchiveEntry} {h h' : Host} {c : Connection}

theorem makeTables_outcome_ok (hmake : (makeTables database).outcome h = (.ok c, h')) :
    ∃ h₁ d, (start database).outcome h = (.ok { path := database }, h₁) ∧
      Ready { path := database } h₁ d ∧
      Commits { path := database } h₁ (Work.makeAssets ⟨d, 0⟩) c h' := by
  obtain ⟨c₁, h₁, hstart, hrest⟩ := bind_ok_iff.mp hmake
  obtain ⟨rfl, -, place, hopens⟩ := start_outcome_ok hstart
  obtain ⟨⟨⟨⟩, c₂⟩, h₂, hchange, hlast⟩ := bind_ok_iff.mp hrest
  obtain ⟨d, hready⟩ := ready_of_changeNow rfl hopens hchange
  obtain ⟨c₃, h₃, hdone, hcommits⟩ := hready.changeNow_outcome (a := ())
    (f := fun w => .ok ((), w.makeAssets)) rfl hready.readable
  rw [hchange] at hdone
  obtain ⟨hc, rfl⟩ := Prod.mk.inj hdone
  obtain rfl := (Prod.mk.inj (ok.inj hc)).2
  obtain ⟨rfl, rfl⟩ := pure_ok hlast
  exact ⟨h₁, d, hstart, hready, hcommits⟩

theorem index_outcome_of_made (harchive : h.Holds archive (.archive entries))
    (hmake : (makeTables database).outcome h = (.ok c, h')) (version : Json) :
    (index database archive version).outcome h =
      (.ok (reports version entries,
        ((fillTables version entries c).outcome h').1.map fun _ => ()),
        ((fillTables version entries c).outcome h').2) := by
  obtain ⟨c₁, h₁, hstart, hrest⟩ := bind_ok_iff.mp hmake
  obtain ⟨⟨⟨⟩, c₂⟩, h₂, hchange, hlast⟩ := bind_ok_iff.mp hrest
  obtain ⟨rfl, rfl⟩ := pure_ok hlast
  rw [index, bind_of_ok harchive.isThere_eq, if_pos rfl,
    bind_of_ok (readArchive_outcome_ok_iff.mpr harchive), bind_of_ok hstart,
    bind_of_ok hchange, bind_of_ok (outcome_attempt _ _), outcome_pure]
  rfl

end Assets

/-- The database at a path takes new tables of assets. -/
def Host.TakesAssets (h : Host) (database : Path) : Prop :=
  ∃ c h', (Assets.makeTables database).outcome h = (.ok c, h')

namespace Assets

variable {database archive : Path} {entries : List ArchiveEntry} {h h' : Host}

/-- The names of the entries that are no directories, in the order of the archive. -/
def fileNames (entries : List ArchiveEntry) : List String :=
  (entries.map ArchiveEntry.name).filter fun name => !isFolderName name

theorem mem_fileNames_iff {name : String} :
    name ∈ fileNames entries ↔ isFolderName name = false ∧ ∃ e ∈ entries, e.name = name := by
  rw [fileNames, mem_filter, mem_map, and_comm, Bool.not_eq_true']

theorem index_cases (harchive : h.Holds archive (.archive entries))
    (htakes : h.TakesAssets database) (v : String) :
    ∃ result h' d t,
      (index database archive (.str v)).outcome h = (.ok (reports (.str v) entries, result), h') ∧
      h'.Stores database d ∧ (d.isReadable ∧ d.assets = some t) ∧
      ((∃ fault, result = .error fault) ∧
          (¬ ∀ e ∈ entries, isInsertable entries e.name) ∧ t = {} ∨
        result = .ok () ∧ (∀ e ∈ entries, isInsertable entries e.name) ∧
          t.Follows (rowNamed? v entries) (fileNames entries)) := by
  obtain ⟨c, h₁, hmake⟩ := htakes
  have hindex := index_outcome_of_made harchive hmake (.str v)
  obtain ⟨h₀, d, -, hready, hcommits⟩ := makeTables_outcome_ok hmake
  have hnames : ∀ path ∈ entries.map name, ∃ e ∈ entries, e.name = path :=
    fun _ hpath => mem_map.mp hpath
  have hall : (entries.map name).all (isInsertable entries) ↔
      ∀ e ∈ entries, isInsertable entries e.name := by
    rw [all_map, all_eq_true]
    rfl
  rw [← hall]
  have hmade : Work.FollowsAssets ⟨{ d with assets := some {} }, c.lastRow⟩
      (rowNamed? v entries) [] := ⟨hready.readable, {}, rfl, AssetTable.follows_empty _⟩
  rcases insertAll_cases hnames hmade with
    ⟨hstops, fault, hinsert⟩ | ⟨hgood, work, hinsert, hreadable, t, htable, hfollows⟩
  · obtain ⟨place, hopens⟩ := hcommits.ready.opens
    have hfill := hcommits.ready.changeNow_eq hopens fun w =>
      insertAll (.str v) entries w (entries.map name) >>= fun work => pure ((), work)
    rw [Work.makeAssets, hinsert] at hfill
    rw [fillTables, hfill] at hindex
    exact ⟨_, h₁, _, {}, hindex, hcommits.stores, ⟨hready.readable, rfl⟩,
      .inl ⟨⟨fault, rfl⟩, by simp [hstops], rfl⟩⟩
  · obtain ⟨c₂, h₂, hfill, hdone⟩ := hcommits.ready.changeNow_outcome (a := ())
      (f := fun w => insertAll (.str v) entries w (entries.map name) >>= fun work =>
        pure ((), work)) (congrArg (· >>= fun work => pure ((), work)) hinsert) hreadable
    rw [fillTables, hfill] at hindex
    have hstored := hdone.stores
    rw [hcommits.path] at hstored
    exact ⟨_, h₂, _, t, hindex, hstored, ⟨hreadable, htable⟩, .inr ⟨rfl, hgood, hfollows⟩⟩

/-- A run through an archive completes exactly when every name in it is insertable. The table then
has one row for each name that is no directory's and no other row. Otherwise the run stops, and the
table is empty. -/
theorem index_completes_iff (harchive : h.Holds archive (.archive entries))
    (htakes : h.TakesAssets database) (v : String) :
    ∃ result h' t,
      (index database archive (.str v)).outcome h = (.ok (reports (.str v) entries, result), h') ∧
      (queryDatabase database fun d => .ok d.assets).outcome h' = (.ok (some t), h') ∧
      (result = .ok () ↔ ∀ e ∈ entries, isInsertable entries e.name = true) ∧
      (t.assets.rows.map Asset.path).Nodup ∧
      ∀ path, path ∈ t.assets.rows.map Asset.path ↔
        result = .ok () ∧ isFolderName path = false ∧ ∃ e ∈ entries, e.name = path := by
  obtain ⟨result, h', d, t, hindex, hstores, htable, hcases⟩ := index_cases harchive htakes v
  refine ⟨result, h', t, hindex, by rw [queryDatabase_outcome hstores, htable.2], ?_⟩
  -- The rows are stored together at the end, so a run that stops at an entry leaves none of them.
  rcases hcases with ⟨⟨fault, rfl⟩, hstops, rfl⟩ | ⟨rfl, hgood, hfollows⟩
  · refine ⟨iff_of_false nofun hstops, List.nodup_nil, fun path => ?_⟩
    exact iff_of_false List.not_mem_nil fun hok => nomatch hok.1
  · refine ⟨iff_of_true rfl hgood, hfollows.nodup, fun path => ?_⟩
    rw [hfollows.mem_paths_iff, mem_fileNames_iff, eq_self, true_and]

def skyEntries : List ArchiveEntry := [
  ("Sky/", .bytes [], false), ("Sky/Moon.txt", .bytes [], false),
  ("Sky/Moon.json", .ofText "\x7b\"id\":[1]\x7d", false)]

def assetWorkspace : Host where
  files := ⟨[
    (["w"], .directory),
    (["w", "assets.db"], .file (.database { assets := some {
      assets := ⟨[⟨"Old.png", ".png", .int 3, "release", none, none, .null, .null, none⟩], 1⟩
      entries := [⟨1, .text "Old.png", .null, .null, .null⟩] } }) 5),
    (["w", "assets.zip"], .file (.archive skyEntries) 6)]⟩

theorem holds_assetWorkspace :
    assetWorkspace.Holds (.absolute ["w", "assets.zip"]) (.archive skyEntries) :=
  ⟨by decide, ["w", "assets.zip"], 6, rfl, rfl⟩

theorem takesAssets_assetWorkspace :
    assetWorkspace.TakesAssets (.absolute ["w", "assets.db"]) :=
  ⟨_, _, rfl⟩

/-- A list as an id stops the run there, and no entry has a row. -/
theorem index_stops_assetWorkspace :
    ∃ result h' t,
      (index (.absolute ["w", "assets.db"]) (.absolute ["w", "assets.zip"])
        (.str "release")).outcome assetWorkspace =
          (.ok (reports (.str "release") skyEntries, result), h') ∧
      (queryDatabase (.absolute ["w", "assets.db"]) fun d => .ok d.assets).outcome h' =
        (.ok (some t), h') ∧
      result ≠ .ok () ∧ t.assets.rows.map Asset.path = [] := by
  obtain ⟨result, h', t, hindex, htable, hcompletes, -, hrows⟩ := index_completes_iff
    holds_assetWorkspace takesAssets_assetWorkspace "release"
  have hstops : ¬ ∀ e ∈ skyEntries, isInsertable skyEntries e.name = true := by
    intro hall
    have hmoon := hall ("Sky/Moon.json", .ofText "\x7b\"id\":[1]\x7d", false)
      (by simp [skyEntries])
    have hlist : isInsertable skyEntries "Sky/Moon.json" = false := by decide +kernel
    exact Bool.false_ne_true (hlist.symm.trans hmoon)
  have hresult : result ≠ .ok () := fun hok => hstops (hcompletes.mp hok)
  refine ⟨result, h', t, hindex, htable, hresult, ?_⟩
  rw [List.eq_nil_iff_forall_not_mem]
  intro path hpath
  exact hresult ((hrows path).mp hpath).1

def searchIn (database : Path) (query limit : Json) : Action (List Asset) :=
  queryDatabase database fun d => d.searchAssets query limit

def infoIn (database : Path) (path : Json) : Action (Option Asset) :=
  queryDatabase database fun d => d.asset path

/-- The fault that ended a run, before or after its tables were made. -/
def raised? : Except Fault (List Report × Except Fault Unit) → Option Fault
  | .error e => some e
  | .ok (_, .error e) => some e
  | .ok (_, .ok ()) => none

end Assets

theorem AssetTable.search_empty (t : AssetTable) (query : String) :
    ({} : AssetTable).search query = (t.search query).map fun _ => [] := by
  cases hproblem : assetScheme.problem? query.toList with
  | some e =>
    simp only [AssetTable.search, FullText.search_of_problem hproblem]
    rfl
  | none =>
    obtain ⟨found, hfound, -⟩ :=
      FullText.search_of_problem?_eq_none hproblem AssetEntry.texts t.entries
    obtain ⟨nothing, hnothing, hperm⟩ :=
      FullText.search_of_problem?_eq_none hproblem AssetEntry.texts []
    obtain rfl := hperm.eq_nil
    simp only [AssetTable.search, hfound, hnothing]
    rfl

namespace Database

variable {d : Database} {t : AssetTable}

theorem searchAssets_emptied (hreadable : d.isReadable) (htable : d.assets = some t)
    (query limit : Json) :
    ({ d with assets := some {} } : Database).searchAssets query limit =
      (d.searchAssets query limit).map fun _ => [] := by
  simp only [searchAssets, assetTable, part, hreadable, htable]
  cases query.givenText with
  | error e => rfl
  | ok text =>
    simp only [bind, Except.bind]
    split
    · rfl
    · cases rowLimit 2 limit with
      | error e => rfl
      | ok n =>
        simp only
        split
        · rfl
        · rw [t.search_empty]
          cases t.search (Query.prepare text) with
          | error e => rfl
          | ok found =>
            cases n <;>
              simp [Except.map, queryOutcome, takeLimit, pure, Except.pure]

theorem asset_emptied (hreadable : d.isReadable) (htable : d.assets = some t)
    (path : Json) :
    ({ d with assets := some {} } : Database).asset path = (d.asset path).map fun _ => none := by
  simp only [asset, assetTable, part, hreadable, htable]
  cases Cell.ofJson 1 path with
  | error e => rfl
  | ok cell =>
    cases hpath : cell.asText <;>
      simp [hpath, bind, Except.bind, pure, Except.pure, Except.map, AssetTable.find?]

end Database

/-- Nothing is found any more among the assets in a database. If it had tables before, each call is
refused as it was then, or else answered with nothing. -/
structure Host.LosesAssets (h h' : Host) (database : Path) : Prop where
  search_eq_nil : ∀ query limit found,
    (Assets.searchIn database query limit).outcome h' = (.ok found, h') → found = []
  info_eq_none : ∀ path found,
    (Assets.infoIn database path).outcome h' = (.ok found, h') → found = none
  search_of_table : ∀ t, (queryDatabase database fun d => .ok d.assets).outcome h =
      (.ok (some t), h) → ∀ query limit, ((Assets.searchIn database query limit).outcome h').1 =
    ((Assets.searchIn database query limit).outcome h).1.map fun _ => []
  info_of_table : ∀ t, (queryDatabase database fun d => .ok d.assets).outcome h =
      (.ok (some t), h) → ∀ path, ((Assets.infoIn database path).outcome h').1 =
    ((Assets.infoIn database path).outcome h).1.map fun _ => none

theorem Host.losesAssets {h h' : Host} {database : Path} {d : Database}
    (hreadable : d.isReadable) (hbefore : ∀ {α : Type} (f : Database → Except Fault α),
      (queryDatabase database f).outcome h = (f d, h))
    (hstores : h'.Stores database { d with assets := some {} }) : h.LosesAssets h' database := by
  let emptied := { d with assets := some {} }
  have hafter {α : Type} (f : Database → Except Fault α) :
      (queryDatabase database f).outcome h' = (f emptied, h') := queryDatabase_outcome hstores f
  constructor
  · intro query limit found hfound
    have hagain := Database.searchAssets_emptied (d := emptied) hreadable rfl query limit
    rw [searchIn, hafter] at hfound
    rw [(Prod.mk.inj hfound).1] at hagain
    exact ok.inj hagain
  · intro path found hfound
    have hagain := Database.asset_emptied (d := emptied) hreadable rfl path
    rw [infoIn, hafter] at hfound
    rw [(Prod.mk.inj hfound).1] at hagain
    exact ok.inj hagain
  · intro t htable query limit
    rw [hbefore] at htable
    rw [searchIn, hafter, hbefore]
    exact Database.searchAssets_emptied hreadable (ok.inj (Prod.mk.inj htable).1) _ _
  · intro t htable path
    rw [hbefore] at htable
    rw [infoIn, hafter, hbefore]
    exact Database.asset_emptied hreadable (ok.inj (Prod.mk.inj htable).1) _

namespace Assets

variable {database archive : Path} {entries : List ArchiveEntry} {h h' : Host}

theorem index_outcome_of_no_archive (hnone : ¬ ∃ entries, h.Holds archive (.archive entries))
    (version : Json) : ((index database archive version).outcome h).2 = h := by
  rw [index, outcome_bind]
  rcases hthere : (isThere archive).outcome h with ⟨e | isThere, h₁⟩
  · exact (reads_isThere archive).host_eq hthere
  · obtain rfl := (reads_isThere archive).host_eq hthere
    cases isThere with
    | false => rfl
    | true =>
      simp only [if_true]
      rw [outcome_bind]
      rcases hread : (readArchive archive).outcome h₁ with ⟨e | entries, h₂⟩
      · exact (reads_readArchive archive).host_eq hread
      · obtain rfl := (reads_readArchive archive).host_eq hread
        exact absurd ⟨entries, readArchive_outcome_ok_iff.mp hread⟩ hnone

theorem index_outcome_of_no_tables {place : Place} (hopens : h.Opens database place)
    (harchive : h.Holds archive (.archive entries)) (hnot : ¬ h.TakesAssets database)
    (version : Json) : ((index database archive version).outcome h).2 = h := by
  have hstart := start_outcome_of_opens hopens
  rw [index, bind_of_ok harchive.isThere_eq, if_pos rfl,
    bind_of_ok (readArchive_outcome_ok_iff.mpr harchive), bind_of_ok hstart,
    outcome_bind]
  rcases hchange : (changeNow { path := database } fun w =>
      .ok ((), w.makeAssets)).outcome h with ⟨e | ⟨⟨⟩, c⟩, h₁⟩
  · exact changeNow_outcome_error rfl hopens hchange
  · refine absurd ⟨c, h₁, ?_⟩ hnot
    rw [makeTables, bind_of_ok hstart, bind_of_ok hchange, outcome_pure]

/-- A run that fails before it makes the tables leaves the machine as it was, so every question is
answered as before. A run that fails later, at an entry, leaves empty tables. -/
theorem index_failure {place : Place} {version : Json} {fault : Fault}
    {result : Except Fault (List Report × Except Fault Unit)} (hopens : h.Opens database place)
    (hrun : (index database archive version).outcome h = (result, h'))
    (hraised : raised? result = some fault) :
    ((¬ ∃ entries, h.Holds archive (.archive entries)) ∨ ¬ h.TakesAssets database) ∧ h' = h ∨
    (∃ entries, h.Holds archive (.archive entries)) ∧ h.TakesAssets database ∧
      h.LosesAssets h' database := by
  have hresult : ((index database archive version).outcome h).1 = result := by rw [hrun]
  obtain rfl : ((index database archive version).outcome h).2 = h' := by rw [hrun]
  rw [← hresult] at hraised
  by_cases harchive : ∃ entries, h.Holds archive (.archive entries)
  · obtain ⟨entries, harchive⟩ := harchive
    by_cases htakes : h.TakesAssets database
    · refine .inr ⟨⟨entries, harchive⟩, htakes, ?_⟩
      obtain ⟨c, h₁, hmake⟩ := htakes
      have hindex := index_outcome_of_made harchive hmake version
      rw [hindex] at hraised ⊢
      obtain ⟨h₀, d, hstart, hready, hcommits⟩ := makeTables_outcome_ok hmake
      obtain rfl : h₀ = h :=
        (Prod.mk.inj (hstart.symm.trans (start_outcome_of_opens hopens))).2
      -- Filling failed, so nothing was committed after the tables were made.
      have hfailed : ((fillTables version entries c).outcome h₁).2 = h₁ := by
        rcases hfill : (fillTables version entries c).outcome h₁ with ⟨e | done, h₂⟩
        · obtain ⟨place', hopens'⟩ := hcommits.ready.opens
          exact changeNow_outcome_error hcommits.ready.draft hopens' hfill
        · rw [hfill] at hraised
          cases hraised
      rw [hfailed]
      refine Host.losesAssets hready.readable (fun f => ?_) hcommits.stores
      rw [queryDatabase, bind_of_ok hstart, query, bind_of_ok hready.view,
        outcome_ofExcept]
    · exact .inl ⟨.inr htakes, index_outcome_of_no_tables hopens harchive htakes version⟩
  · exact .inl ⟨.inl harchive, index_outcome_of_no_archive harchive version⟩

/-- A run that stops at an entry forgets the asset that was known before it. -/
theorem index_failure_forgets_assetWorkspace :
    (raised? ((index (.absolute ["w", "assets.db"]) (.absolute ["w", "assets.zip"])
      (.str "release")).outcome assetWorkspace).1).isSome = true ∧
    ((infoIn (.absolute ["w", "assets.db"]) (.str "Old.png")).outcome
      ((index (.absolute ["w", "assets.db"]) (.absolute ["w", "assets.zip"])
        (.str "release")).outcome assetWorkspace).2).1 ≠
      ((infoIn (.absolute ["w", "assets.db"]) (.str "Old.png")).outcome assetWorkspace).1 := by
  decide +kernel

theorem index_failure_assetWorkspace :
    ∃ result h' fault,
      (index (.absolute ["w", "assets.db"]) (.absolute ["w", "assets.zip"])
        (.str "release")).outcome assetWorkspace = (result, h') ∧
      raised? result = some fault ∧
      assetWorkspace.LosesAssets h' (.absolute ["w", "assets.db"]) := by
  have hstart : (Connection.start (.absolute ["w", "assets.db"])).outcome assetWorkspace =
      (.ok { path := .absolute ["w", "assets.db"] }, assetWorkspace) := rfl
  obtain ⟨-, -, place, hopens⟩ := Connection.start_outcome_ok hstart
  rcases hrun : (index (.absolute ["w", "assets.db"]) (.absolute ["w", "assets.zip"])
    (.str "release")).outcome assetWorkspace with ⟨result, h'⟩
  have hfails : (raised? ((index (.absolute ["w", "assets.db"]) (.absolute ["w", "assets.zip"])
      (.str "release")).outcome assetWorkspace).1).isSome = true := by decide +kernel
  rw [hrun] at hfails
  obtain ⟨fault, hraised⟩ := Option.isSome_iff_exists.mp hfails
  refine ⟨result, h', fault, rfl, hraised, ?_⟩
  rcases index_failure hopens hrun hraised with ⟨hnone | hnot, -⟩ | ⟨-, -, hloses⟩
  · exact absurd ⟨skyEntries, holds_assetWorkspace⟩ hnone
  · exact absurd takesAssets_assetWorkspace hnot
  · exact hloses

end Assets

end JarAtlas
