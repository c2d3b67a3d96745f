import JarAtlas.Proofs.Assets.Indexing

/-!
What a completed run through an archive leaves. Every name that is no directory's has one row, and
that row tells what the last entry of the name says. The full-text entries follow the names one by
one, so a name that occurs twice has two of them. An object in a text gives its id and its type,
unless no id seems to be in the text.
-/

open List Option Except

namespace JarAtlas

open JarAtlas.Action

variable {t : AssetTable} {rowOf : String → Option Asset} {names : List String}

namespace Assets

variable {entries : List ArchiveEntry} {name v : String} {e : ArchiveEntry} {row : Asset}
  {a : NewAsset}

def IsLastNamed (entries : List ArchiveEntry) (name : String) (e : ArchiveEntry) : Prop :=
  ∃ before after, entries = before ++ e :: after ∧ e.name = name ∧
    ∀ other ∈ after, other.name ≠ name

theorem isLastNamed_iff : IsLastNamed entries name e ↔ entryNamed? entries name = some e := by
  rw [entryNamed?, find?_eq_some_iff_append]
  constructor
  · rintro ⟨before, after, rfl, hname, hafter⟩
    refine ⟨by simpa using hname, after.reverse, before.reverse, by simp, ?_⟩
    intro other hother
    simpa using hafter other (mem_reverse.mp hother)
  · rintro ⟨hname, front, back, hsplit, hfront⟩
    refine ⟨back.reverse, front.reverse, ?_, by simpa using hname, ?_⟩
    · simpa using congrArg reverse hsplit
    · intro other hother
      simpa using hfront other (mem_reverse.mp hother)

/-- The bytes begin as a PNG image of this width and height does. -/
def IsPngHeader (w h : Nat) (data : Bytes) : Prop :=
  ∃ lead width height rest, data = pngSignature ++ lead ++ width ++ height ++ rest ∧
    lead.length = 8 ∧ width.length = 4 ∧ height.length = 4 ∧
    w = bigEndian width ∧ h = bigEndian height

theorem pngDimensions_eq_some_iff {data : Bytes} {w h : Nat} :
    pngDimensions data = some (w, h) ↔ IsPngHeader w h data := by
  constructor
  · intro hsize
    unfold pngDimensions at hsize
    split at hsize
    · cases hsize
    · next hlong =>
      split at hsize
      · cases hsize
      · next hmark =>
        cases hsize
        have hlength : 24 ≤ data.length := by
          rw [length_take] at hlong
          omega
        have hfront : data.take 8 = pngSignature := by simpa using hmark
        refine ⟨(data.drop 8).take 8, (data.drop 16).take 4, (data.drop 20).take 4,
          data.drop 24, ?_, ?_, ?_, ?_, rfl, rfl⟩
        · have hpiece (i n : Nat) : (data.drop i).take n ++ data.drop (i + n) =
              data.drop i := by
            rw [← drop_drop, take_append_drop]
          have hrest : (data.drop 20).take 4 ++ data.drop 24 = data.drop 20 := hpiece 20 4
          have hmid : (data.drop 16).take 4 ++ data.drop 20 = data.drop 16 := hpiece 16 4
          have hlead : (data.drop 8).take 8 ++ data.drop 16 = data.drop 8 := hpiece 8 8
          simp only [append_assoc]
          rw [hrest, hmid, hlead, ← hfront, take_append_drop]
        all_goals
          rw [length_take, length_drop]
          omega
  · rintro ⟨lead, width, height, rest, rfl, hlead, hwidth, hheight, rfl, rfl⟩
    have hmark : pngSignature.length = 8 := rfl
    have hskip : (pngSignature ++ lead).length = 16 := by rw [length_append, hmark, hlead]
    have hskip' : (pngSignature ++ lead ++ width).length = 20 := by
      rw [length_append, hskip, hwidth]
    have hlong : ¬ ((pngSignature ++ lead ++ width ++ height ++ rest).take 24).length < 24 := by
      rw [length_take, length_append, length_append, hskip', hheight]
      omega
    unfold pngDimensions
    rw [if_neg hlong]
    simp only [append_assoc]
    rw [take_left' hmark, ← append_assoc pngSignature, drop_left' hskip, take_left' hwidth,
      ← append_assoc _ width, drop_left' hskip', take_left' hheight]
    simp

theorem pngDimensions_take (data : Bytes) : pngDimensions (data.take 24) = pngDimensions data := by
  simp [pngDimensions, take_take, drop_take]

/-- What an asset has to say of its entry, but for its category and its id. -/
structure Describes (v : String) (e : ArchiveEntry) (a : Asset) : Prop where
  path : a.path = e.name
  extension : a.extension = Text.lower (Path.parse e.name).suffix
  size : a.size = .int (Int.ofNat e.content.plain.length)
  version : a.version = v
  dimensions : a.extension = ".png" → e.isLocked = false →
    ∀ w h, IsPngHeader w h e.content.plain →
      a.width = .int (Int.ofNat w) ∧ a.height = .int (Int.ofNat h)
  noDimensions : ¬ (a.extension = ".png" ∧ e.isLocked = false ∧
    ∃ w h, IsPngHeader w h e.content.plain) → a.width = .null ∧ a.height = .null
  metadata : a.metadata = if a.extension ∈ jsonExtensions ∧ e.isLocked = false then
    some (String.ofList (Utf8.decodeIgnoring (e.content.plain.take (512 * 1024)))) else none

theorem dimensions_factsOf (e : ArchiveEntry) :
    ((factsOf e).width, (factsOf e).height) =
      if extensionOf e.name = ".png" ∧ e.isLocked = false then
        ((pngDimensions e.content.plain).map fun size =>
          (Json.ofNat size.1, Json.ofNat size.2)).getD (.null, .null)
      else (.null, .null) := by
  have hother : jsonExtensions.contains ".png" = false := by decide
  unfold factsOf
  split
  · next hlocked => simp [hlocked]
  · next hopen =>
    have hopen : e.isLocked = false := by simpa using hopen
    split
    · next hjson =>
      have hpng : extensionOf e.name ≠ ".png" := by
        intro hpng
        rw [hpng, hother] at hjson
        cases hjson
      simp [hpng]
    · split
      · next hpng =>
        have hpng : extensionOf e.name = ".png" := by simpa using hpng
        simp only [if_pos (And.intro hpng hopen), pngDimensions_take]
        cases pngDimensions e.content.plain <;> rfl
      · next hpng =>
        have hpng : extensionOf e.name ≠ ".png" := by simpa using hpng
        simp [hpng]

theorem metadata_factsOf (e : ArchiveEntry) :
    (factsOf e).metadata =
      if extensionOf e.name ∈ jsonExtensions ∧ e.isLocked = false then
        .str (String.ofList (keptText e.content)) else .null := by
  unfold factsOf
  split
  · next hlocked => simp [hlocked]
  · next hopen =>
    have hopen : e.isLocked = false := by simpa using hopen
    split
    · next hjson =>
      have hjson : extensionOf e.name ∈ jsonExtensions := by simpa using hjson
      rw [if_pos ⟨hjson, hopen⟩]
    · next hjson =>
      have hjson : extensionOf e.name ∉ jsonExtensions := by simpa using hjson
      simp only [hjson, false_and, if_false]
      split
      · split <;> rfl
      · rfl

theorem describes_of_newAsset (hnew : newAsset (.str v) e = .ok a)
    (hrow : a.row = .ok row) : Describes v e row := by
  obtain ⟨-, -, -, -, -, hwidth, hheight, hmetadata, -⟩ := newAsset_eq_ok_iff.mp hnew
  obtain rfl := ok.inj ((row_of_newAsset hnew).symm.trans hrow)
  have hsize := dimensions_factsOf e
  have htext := metadata_factsOf e
  refine ⟨rfl, rfl, rfl, rfl, ?_, ?_, ?_⟩
  · intro hpng hopen w h hheader
    rw [if_pos ⟨hpng, hopen⟩, pngDimensions_eq_some_iff.mpr hheader] at hsize
    obtain ⟨hwide, hhigh⟩ := Prod.mk.inj hsize
    rw [hwide] at hwidth
    rw [hhigh] at hheight
    rw [Cell.eq_of_ofJson_ofNat hwidth, Cell.eq_of_ofJson_ofNat hheight]
    exact ⟨rfl, rfl⟩
  · intro hnot
    have hnone : ((factsOf e).width, (factsOf e).height) = (.null, .null) := by
      rw [hsize]
      split
      · next himage =>
        cases hread : pngDimensions e.content.plain with
        | none => rfl
        | some size =>
          have hheader := pngDimensions_eq_some_iff.mp hread
          exact absurd ⟨himage.1, himage.2, size.1, size.2, hheader⟩ hnot
      · rfl
    obtain ⟨hwide, hhigh⟩ := Prod.mk.inj hnone
    rw [hwide] at hwidth
    rw [hhigh] at hheight
    rw [← ok.inj hwidth, ← ok.inj hheight]
    exact ⟨rfl, rfl⟩
  · rw [htext] at hmetadata
    split at hmetadata
    · next hkept =>
      rw [← ok.inj hmetadata, if_pos hkept]
      rfl
    · next hnone =>
      rw [← ok.inj hmetadata, if_neg hnone]
      rfl

theorem exists_newAsset_of_rowNamed? (hrow : rowNamed? v entries name = some row) :
    ∃ e a, entryNamed? entries name = some e ∧ newAsset (.str v) e = .ok a ∧ a.row = .ok row := by
  obtain ⟨e, he, hrest⟩ := bind_eq_some_iff.mp hrow
  obtain ⟨a, ha, hlast⟩ := bind_eq_some_iff.mp hrest
  exact ⟨e, a, he, ok_of_toOption ha, ok_of_toOption hlast⟩

end Assets

theorem AssetTable.Follows.find?_eq_some_iff (hfollows : t.Follows rowOf names) {path : String}
    {a : Asset} : t.find? path = some a ↔ path ∈ names ∧ rowOf path = some a := by
  constructor
  · intro hfound
    have hrow := (hfollows.mem_rows_iff a).mp (mem_of_find?_eq_some hfound)
    have hpath : a.path = path := by simpa using find?_some hfound
    rwa [hpath] at hrow
  · rintro ⟨hname, hrow⟩
    obtain ⟨a', hmem, hrow', rfl⟩ := hfollows.exists_row hname
    obtain rfl := some.inj (hrow.symm.trans hrow')
    cases hfound : t.find? a.path with
    | none => exact absurd (find?_eq_none.mp hfound a hmem) (by simp)
    | some other =>
      have hother : other.path = a.path := by simpa using find?_some hfound
      have hrow' := ((hfollows.mem_rows_iff other).mp (mem_of_find?_eq_some hfound)).2
      rw [hother, hrow] at hrow'
      rw [some.inj hrow']

namespace Assets

variable {entries : List ArchiveEntry} {v : String}

variable {database archive : Path} {h h' : Host} {told : List Report}

theorem stores_of_completed (harchive : h.Holds archive (.archive entries))
    (hrun : (index database archive (.str v)).outcome h = (.ok (told, .ok ()), h')) :
    ∃ d t, h'.Stores database d ∧ d.isReadable ∧ d.assets = some t ∧
      t.Follows (rowNamed? v entries) (fileNames entries) := by
  have htakes : h.TakesAssets database := by
    rw [index, bind_of_ok harchive.isThere_eq, if_pos rfl,
      bind_of_ok (readArchive_outcome_ok_iff.mpr harchive)] at hrun
    obtain ⟨c, h₁, hstart, hrest⟩ := bind_ok_iff.mp hrun
    obtain ⟨⟨⟨⟩, c₂⟩, h₂, hchange, -⟩ := bind_ok_iff.mp hrest
    refine ⟨c₂, h₂, ?_⟩
    rw [makeTables, bind_of_ok hstart, bind_of_ok hchange, outcome_pure]
  obtain ⟨result, h₁, d, t, hindex, hstores, ⟨hreadable, htable⟩, hcases⟩ :=
    index_cases harchive htakes v
  obtain ⟨hresult, rfl⟩ := Prod.mk.inj (hindex.symm.trans hrun)
  obtain rfl := (Prod.mk.inj (ok.inj hresult)).2
  rcases hcases with ⟨⟨fault, hfault⟩, -⟩ | ⟨-, -, hfollows⟩
  · cases hfault
  · exact ⟨d, t, hstores, hreadable, htable, hfollows⟩

theorem infoIn_outcome {d : Database} {t : AssetTable} (hstores : h.Stores database d)
    (hreadable : d.isReadable) (htable : d.assets = some t) (path : String) :
    (infoIn database (.str path)).outcome h = (.ok (t.find? path), h) := by
  rw [infoIn, queryDatabase_outcome hstores]
  simp only [Database.asset, Database.assetTable, Database.part, hreadable, htable]
  rfl

/-- What is known after a completed run: a path is known exactly if it names a file of the archive,
and then as the last entry of that name tells. -/
theorem info_of_completed (harchive : h.Holds archive (.archive entries))
    (hrun : (index database archive (.str v)).outcome h = (.ok (told, .ok ()), h'))
    (path : String) :
    ∃ found, (infoIn database (.str path)).outcome h' = (.ok found, h') ∧
      (found.isSome = true ↔ isFolderName path = false ∧ ∃ e ∈ entries, e.name = path) ∧
      ∀ a, found = some a → ∃ e, IsLastNamed entries path e ∧ Describes v e a := by
  obtain ⟨d, t, hstores, hreadable, htable, hfollows⟩ := stores_of_completed harchive hrun
  refine ⟨t.find? path, infoIn_outcome hstores hreadable htable path, ?_, ?_⟩
  · rw [← mem_fileNames_iff]
    constructor
    · intro hfound
      obtain ⟨a, hfound⟩ := Option.isSome_iff_exists.mp hfound
      exact (hfollows.find?_eq_some_iff.mp hfound).1
    · intro hname
      obtain ⟨a, -, hrow, -⟩ := hfollows.exists_row hname
      rw [hfollows.find?_eq_some_iff.mpr ⟨hname, hrow⟩]
      rfl
  · intro a hfound
    obtain ⟨-, hrow⟩ := hfollows.find?_eq_some_iff.mp hfound
    obtain ⟨e, new, hlast, hnew, hrow⟩ := exists_newAsset_of_rowNamed? hrow
    exact ⟨e, isLastNamed_iff.mpr hlast, describes_of_newAsset hnew hrow⟩

def moonEntries : List ArchiveEntry := [
  ("Sky/", .bytes [], false), ("Sky/Moon.png", .bytes [], false),
  ("Sky/Moon.png", .bytes (pngSignature ++ [0, 0, 0, 13, 73, 72, 68, 82] ++ [0, 0, 0, 2] ++
    [0, 0, 0, 3]), false)]

def moonWorkspace : Host where
  files := ⟨[
    (["w"], .directory),
    (["w", "assets.db"], .file (.database { assets := some {
      assets := ⟨[⟨"Old.png", ".png", .int 3, "release", none, none, .null, .null, none⟩], 1⟩
      entries := [⟨1, .text "Old.png", .null, .null, .null⟩] } }) 5),
    (["w", "assets.zip"], .file (.archive moonEntries) 6)]⟩

theorem holds_moonWorkspace :
    moonWorkspace.Holds (.absolute ["w", "assets.zip"]) (.archive moonEntries) :=
  ⟨by decide, ["w", "assets.zip"], 6, rfl, rfl⟩

theorem exists_run_of_raised?_eq_none {run : Action (List Report × Except Fault Unit)}
    (hnone : raised? (run.outcome h).1 = none) :
    ∃ told h', run.outcome h = (.ok (told, .ok ()), h') := by
  rcases hrun : run.outcome h with ⟨e | ⟨told, e | ⟨⟨⟩⟩⟩, h'⟩
  · rw [hrun] at hnone
    cases hnone
  · rw [hrun] at hnone
    cases hnone
  · exact ⟨told, h', rfl⟩

theorem completes_moonWorkspace :
    ∃ told h', (index (.absolute ["w", "assets.db"]) (.absolute ["w", "assets.zip"])
      (.str "release")).outcome moonWorkspace = (.ok (told, .ok ()), h') := by
  apply exists_run_of_raised?_eq_none
  decide +kernel

/-- The image is known with its dimensions, and the asset of the earlier run is forgotten. -/
theorem info_moonWorkspace :
    ∃ told h', (index (.absolute ["w", "assets.db"]) (.absolute ["w", "assets.zip"])
        (.str "release")).outcome moonWorkspace = (.ok (told, .ok ()), h') ∧
      (∃ a, (infoIn (.absolute ["w", "assets.db"]) (.str "Sky/Moon.png")).outcome h' =
        (.ok (some a), h') ∧ a.size = .int 24 ∧ a.width = .int 2 ∧ a.height = .int 3) ∧
      (infoIn (.absolute ["w", "assets.db"]) (.str "Old.png")).outcome h' = (.ok none, h') := by
  obtain ⟨told, h', hrun⟩ := completes_moonWorkspace
  refine ⟨told, h', hrun, ?_, ?_⟩
  · obtain ⟨found, hinfo, hknown, htells⟩ :=
      info_of_completed holds_moonWorkspace hrun "Sky/Moon.png"
    have hthere : isFolderName "Sky/Moon.png" = false ∧
        ∃ e ∈ moonEntries, e.name = "Sky/Moon.png" :=
      ⟨by decide, _, mem_cons_of_mem _ mem_cons_self, rfl⟩
    obtain ⟨a, rfl⟩ := Option.isSome_iff_exists.mp (hknown.mpr hthere)
    obtain ⟨e, hlast, hdescribes⟩ := htells a rfl
    obtain rfl := Option.some.inj (isLastNamed_iff.mp hlast)
    have hpng : a.extension = ".png" := hdescribes.extension.trans (by decide +kernel)
    obtain ⟨hwidth, hheight⟩ := hdescribes.dimensions hpng rfl 2 3
      ⟨[0, 0, 0, 13, 73, 72, 68, 82], [0, 0, 0, 2], [0, 0, 0, 3], [], rfl, rfl, rfl, rfl, rfl, rfl⟩
    exact ⟨a, hinfo, hdescribes.size, hwidth, hheight⟩
  · obtain ⟨found, hinfo, hknown, -⟩ := info_of_completed holds_moonWorkspace hrun "Old.png"
    have hnot : ¬ (isFolderName "Old.png" = false ∧ ∃ e ∈ moonEntries, e.name = "Old.png") := by
      decide
    rw [← hknown, Bool.not_eq_true, Option.isSome_eq_false_iff, Option.isNone_iff_eq_none] at hnot
    rw [hinfo, hnot]

end Assets

/-- Whether a database keeps nothing of a value: that no number is one, too. -/
def Json.isKeptAsNull : Json → Bool
  | .null | .double .nan => true
  | .misnamed v => v.isKeptAsNull
  | _ => false

theorem Double.isSome_storedText {d : Double} (hnumber : d ≠ .nan) : d.storedText.isSome := by
  cases d with
  | nan => exact absurd rfl hnumber
  | infinite => rfl
  | finite _ m => cases m <;> rfl

theorem Cell.isSome_asText_iff {position : Nat} {v : Json} {cell : Cell}
    (hcell : ofJson position v = .ok cell) : cell.asText.isSome ↔ v.isKeptAsNull = false := by
  fun_induction ofJson position v with
  | case4 | case8 | case10 | case11 => cases hcell
  | case6 d hnumber =>
    cases hcell
    refine iff_of_true (Double.isSome_storedText hnumber) ?_
    cases d with
    | nan => exact absurd rfl hnumber
    | infinite | finite => rfl
  | case9 v ih => exact ih hcell
  | case1 | case2 | case3 | case5 | case7 =>
    cases hcell
    simp [asText, Json.isKeptAsNull]

namespace Assets

variable {entries : List ArchiveEntry} {v path : String} {e : ArchiveEntry}
  {fields : List (String × Json)} {database archive : Path} {h h' : Host} {told : List Report}

theorem keptText_eq {content : Content} (hshort : content.plain.length ≤ textLimit) :
    keptText content = Utf8.decodeIgnoring content.plain := by
  rw [keptText, take_of_length_le hshort]

theorem factsOf_json (hopen : e.isLocked = false) (hjson : extensionOf e.name ∈ jsonExtensions) :
    (factsOf e).internalId = (idAndType (keptText e.content)).1 ∧
    (category e.name = none → (factsOf e).category = (idAndType (keptText e.content)).2) := by
  have hjson : jsonExtensions.contains (extensionOf e.name) = true := by simpa using hjson
  simp only [factsOf, hopen, hjson, Bool.false_eq_true, if_false, if_true, true_and]
  intro hnone
  rw [hnone]
  rfl

theorem idAndType_of_parse? {text : List Char} (hparse : Json.parse? text = some (.obj fields)) :
    idAndType text =
      (if "\"id\":".toList <:+: text then (Json.lookup "id" fields).getD .null else .null,
        if "\"id\":".toList <:+: text then (Json.lookup "type" fields).getD .null else .null) := by
  simp only [idAndType, hparse, Text.occursIn_iff]
  split <;> rfl

theorem isKeptAsNull_ite {p : Prop} [Decidable p] {found : Option Json} :
    (if p then found.getD .null else .null).isKeptAsNull = false ↔
      p ∧ ∃ value, found = some value ∧ value.isKeptAsNull = false := by
  split <;> cases found <;> simp_all [Json.isKeptAsNull]

theorem infoIn_of_completed (harchive : h.Holds archive (.archive entries))
    (hrun : (index database archive (.str v)).outcome h = (.ok (told, .ok ()), h'))
    (hlast : IsLastNamed entries path e) (hfile : isFolderName path = false) :
    ∃ new row, newAsset (.str v) e = .ok new ∧ new.row = .ok row ∧
      (infoIn database (.str path)).outcome h' = (.ok (some row), h') := by
  obtain ⟨d, t, hstores, hreadable, htable, hfollows⟩ := stores_of_completed harchive hrun
  have hfound := isLastNamed_iff.mp hlast
  have hpath : path ∈ fileNames entries := by
    obtain ⟨before, after, rfl, hname, -⟩ := hlast
    exact mem_fileNames_iff.mpr ⟨hfile, e, mem_append_right _ mem_cons_self, hname⟩
  obtain ⟨row, -, hgives, -⟩ := hfollows.exists_row hpath
  obtain ⟨e', new, hfound', hnew, hrow⟩ := exists_newAsset_of_rowNamed? hgives
  obtain rfl := some.inj (hfound.symm.trans hfound')
  refine ⟨new, row, hnew, hrow, ?_⟩
  rw [infoIn_outcome hstores hreadable htable, hfollows.find?_eq_some_iff.mpr ⟨hpath, hgives⟩]

theorem isSome_row_iff {new : NewAsset} {row : Asset} (hnew : newAsset (.str v) e = .ok new)
    (hrow : new.row = .ok row) (hopen : e.isLocked = false)
    (hjson : extensionOf e.name ∈ jsonExtensions) (hshort : e.content.plain.length ≤ textLimit)
    (hparse : Json.parse? (Utf8.decodeIgnoring e.content.plain) = some (.obj fields)) :
    (row.internalId.isSome ↔ "\"id\":".toList <:+: Utf8.decodeIgnoring e.content.plain ∧
      ∃ id, Json.lookup "id" fields = some id ∧ id.isKeptAsNull = false) ∧
    (category e.name = none →
      (row.category.isSome ↔ "\"id\":".toList <:+: Utf8.decodeIgnoring e.content.plain ∧
        ∃ type, Json.lookup "type" fields = some type ∧ type.isKeptAsNull = false)) := by
  have hfacts := factsOf_json hopen hjson
  rw [keptText_eq hshort, idAndType_of_parse? hparse] at hfacts
  obtain ⟨-, -, -, hcategory, hid, -⟩ := newAsset_eq_ok_iff.mp hnew
  obtain rfl := ok.inj ((row_of_newAsset hnew).symm.trans hrow)
  refine ⟨?_, fun hnone => ?_⟩
  · rw [Cell.isSome_asText_iff hid, hfacts.1, isKeptAsNull_ite]
  · rw [Cell.isSome_asText_iff hcategory, hfacts.2 hnone, isKeptAsNull_ite]

/-- After a completed run the id of an object in a file and, where its folder gives no category, its
type are known exactly if the object has them and the text spells an id. -/
theorem id_known_iff (harchive : h.Holds archive (.archive entries))
    (hrun : (index database archive (.str v)).outcome h = (.ok (told, .ok ()), h'))
    (hlast : IsLastNamed entries path e) (hfile : isFolderName path = false)
    (hopen : e.isLocked = false) (hjson : extensionOf path ∈ jsonExtensions)
    (hshort : e.content.plain.length ≤ textLimit)
    (hparse : Json.parse? (Utf8.decodeIgnoring e.content.plain) = some (.obj fields)) :
    ∃ a, (infoIn database (.str path)).outcome h' = (.ok (some a), h') ∧
      (a.internalId.isSome ↔ "\"id\":".toList <:+: Utf8.decodeIgnoring e.content.plain ∧
        ∃ id, Json.lookup "id" fields = some id ∧ id.isKeptAsNull = false) ∧
      (category path = none →
        (a.category.isSome ↔ "\"id\":".toList <:+: Utf8.decodeIgnoring e.content.plain ∧
          ∃ type, Json.lookup "type" fields = some type ∧ type.isKeptAsNull = false)) := by
  obtain ⟨new, a, hnew, hrow, hinfo⟩ := infoIn_of_completed harchive hrun hlast hfile
  obtain ⟨-, -, -, rfl, -⟩ := hlast
  exact ⟨a, hinfo, isSome_row_iff hnew hrow hopen hjson hshort hparse⟩

def typedEntries : List ArchiveEntry := [
  ("Oak.json", .ofText "\x7b\"id\":\"oak\",\"type\":\"wood\"\x7d", false),
  ("Ash.json", .ofText "\x7b\"type\":\"wood\"\x7d", false)]

def typedWorkspace : Host where
  files := ⟨[(["w"], .directory), (["w", "assets.zip"], .file (.archive typedEntries) 6)]⟩

theorem holds_typedWorkspace :
    typedWorkspace.Holds (.absolute ["w", "assets.zip"]) (.archive typedEntries) :=
  ⟨by decide, ["w", "assets.zip"], 6, rfl, rfl⟩

theorem completes_typedWorkspace :
    ∃ told h', (index (.absolute ["w", "assets.db"]) (.absolute ["w", "assets.zip"])
      (.str "release")).outcome typedWorkspace = (.ok (told, .ok ()), h') := by
  apply exists_run_of_raised?_eq_none
  decide +kernel

theorem id_known_typedWorkspace :
    ∃ told h', (index (.absolute ["w", "assets.db"]) (.absolute ["w", "assets.zip"])
        (.str "release")).outcome typedWorkspace = (.ok (told, .ok ()), h') ∧
      ∃ a, (infoIn (.absolute ["w", "assets.db"]) (.str "Oak.json")).outcome h' =
        (.ok (some a), h') ∧ a.internalId.isSome ∧ a.category.isSome := by
  obtain ⟨told, h', hrun⟩ := completes_typedWorkspace
  have hlast : IsLastNamed typedEntries "Oak.json"
      ("Oak.json", .ofText "\x7b\"id\":\"oak\",\"type\":\"wood\"\x7d", false) :=
    isLastNamed_iff.mpr rfl
  have htext : Utf8.decodeIgnoring
      (Content.ofText "\x7b\"id\":\"oak\",\"type\":\"wood\"\x7d").plain =
        "\x7b\"id\":\"oak\",\"type\":\"wood\"\x7d".toList := by decide +kernel
  have hparse : Json.parse? "\x7b\"id\":\"oak\",\"type\":\"wood\"\x7d".toList =
      some (.obj [("id", .str "oak"), ("type", .str "wood")]) := by cbv
  obtain ⟨a, hinfo, hid, hcategory⟩ := id_known_iff holds_typedWorkspace hrun hlast (by decide) rfl
    (by decide +kernel) (by decide) ((congrArg Json.parse? htext).trans hparse)
  have hspelled := Text.occursIn_iff.mp (by decide :
    Text.occursIn "\"id\":".toList "\x7b\"id\":\"oak\",\"type\":\"wood\"\x7d".toList)
  rw [← htext] at hspelled
  exact ⟨told, h', hrun, a, hinfo, hid.mpr ⟨hspelled, .str "oak", rfl, rfl⟩,
    (hcategory (by decide)).mpr ⟨hspelled, .str "wood", rfl, rfl⟩⟩

theorem type_unknown_typedWorkspace :
    Json.parse? (Utf8.decodeIgnoring (Content.ofText "\x7b\"type\":\"wood\"\x7d").plain) =
      some (.obj [("type", .str "wood")]) ∧
    category "Ash.json" = none ∧
    ∃ told h', (index (.absolute ["w", "assets.db"]) (.absolute ["w", "assets.zip"])
        (.str "release")).outcome typedWorkspace = (.ok (told, .ok ()), h') ∧
      ∃ a, (infoIn (.absolute ["w", "assets.db"]) (.str "Ash.json")).outcome h' =
        (.ok (some a), h') ∧ a.category = none := by
  obtain ⟨told, h', hrun⟩ := completes_typedWorkspace
  have hlast : IsLastNamed typedEntries "Ash.json"
      ("Ash.json", .ofText "\x7b\"type\":\"wood\"\x7d", false) := isLastNamed_iff.mpr rfl
  have htext : Utf8.decodeIgnoring (Content.ofText "\x7b\"type\":\"wood\"\x7d").plain =
      "\x7b\"type\":\"wood\"\x7d".toList := by decide +kernel
  have hparse : Json.parse? (Utf8.decodeIgnoring
      (Content.ofText "\x7b\"type\":\"wood\"\x7d").plain) = some (.obj [("type", .str "wood")]) := by
    rw [htext]
    cbv
  have hspelled : ¬ "\"id\":".toList <:+: Utf8.decodeIgnoring
      (Content.ofText "\x7b\"type\":\"wood\"\x7d").plain :=
    mt Text.occursIn_iff.mpr (by decide +kernel)
  have hfolder : category "Ash.json" = none := by decide
  obtain ⟨new, a, hnew, hrow, hinfo⟩ :=
    infoIn_of_completed holds_typedWorkspace hrun hlast (by decide)
  have hknown := (isSome_row_iff hnew hrow rfl (by decide +kernel) (by decide) hparse).2 hfolder
  refine ⟨hparse, hfolder, told, h', hrun, a, hinfo, ?_⟩
  rw [← not_isSome_iff_eq_none, hknown]
  exact mt And.left hspelled

end Assets

end JarAtlas
