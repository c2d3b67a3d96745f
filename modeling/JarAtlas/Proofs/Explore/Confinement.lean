import JarAtlas.Explore.Source
import JarAtlas.Proofs.Host.Gaining
import JarAtlas.Proofs.Store.Requests

/-!
Reading back the files that classes were found in. Classes come from the directory of sources of a
version, and files are read from its directory of decompiled code, so a class can be read back
exactly when that other directory holds the same text under the same name.
-/

open Except

namespace JarAtlas

open JarAtlas.Action

variable {h : Host} {root : Path} {v : ServerVersion} {given : String} {h' : Host}
  {text : List Char}

theorem Writer.addTypes_origin {w : Writer} {types : List (String × Java.TypeDecl)}
    (hadd : start.addTypes types = .ok w) :
    ∀ row ∈ w.catalogue.classes.rows, ∃ t ∈ types, row = t.2.classRow t.1 row.id := by
  refine addTypes_induct (P := fun types w => ∀ row ∈ w.catalogue.classes.rows,
    ∃ t ∈ types, row = t.2.classRow t.1 row.id) start_sound hadd nofun ?_
  rintro done t w₁ w₂ id - horigin - hputs row hrow
  rcases hputs with ⟨-, -, hclasses⟩ | ⟨-, -, hclasses⟩ <;> rw [hclasses] at hrow
  · rcases List.mem_append.mp hrow with hold | hnew
    · obtain ⟨u, hu, hfrom⟩ := horigin row hold
      exact ⟨u, List.mem_append_left _ hu, hfrom⟩
    · refine ⟨t, List.mem_append_right _ (List.mem_singleton_self t), ?_⟩
      rw [List.mem_singleton.mp hnew]
      rfl
  · obtain ⟨u, hu, hfrom⟩ := horigin row hrow
    exact ⟨u, List.mem_append_left _ hu, hfrom⟩

/-- The directory of decompiled code of a version holds a file with the text under the name. -/
def Host.HoldsDecompiled (h : Host) (root : Path) (v : ServerVersion) (name : String)
    (text : List Char) : Prop :=
  name ≠ "" ∧ ∃ given dir p content time,
    (Layout.decompiled root v.name).outcome h = (.ok given, h) ∧
    h.resolve given = .ok dir ∧ h.resolve (dir / name) = .ok p ∧ p.isWithin dir = true ∧
    h.look p = .ok (some (.file content time)) ∧ content.text = text

/-- What is read of a name in a directory. -/
def Host.sourceIn (h : Host) (dir : Path) (v : ServerVersion) (name : String) :
    Except Fault (Except Problem SourceText) := do
  let p ← h.resolve (dir / name)
  if p.isWithin dir then
    match ← h.look p with
    | some (.file content _) => return .ok ⟨name, v, content.text⟩
    | _ => return .error (.noFile name)
  else return .error .outside

theorem readSource_outcome_str (root : Option Path) (v : ServerVersion) (given : String) (h : Host) :
    (readSource root v (.str given)).outcome h =
      if sourceName given = "" then (.ok (.error .missingPath), h)
      else match (sourceDir root v).outcome h with
        | (.ok dir, h₁) => (h₁.sourceIn dir v (sourceName given), h₁)
        | (.error e, h₁) => (.error e, h₁) := by
  unfold readSource
  rw [Json.givenText_str, bind_of_ok (outcome_ofExcept _ h)]
  by_cases hname : sourceName given = ""
  · simp [hname]
  · simp only [beq_eq_false_iff_ne.mpr hname, Bool.false_eq_true, if_false, if_neg hname]
    rw [outcome_bind]
    rcases (sourceDir root v).outcome h with ⟨e | dir, h₁⟩
    · rfl
    · simp only
      rw [outcome_bind, outcome_resolve, Host.sourceIn]
      cases h₁.resolve (dir / sourceName given) with
      | error e => rfl
      | ok p =>
        simp only [bind, Except.bind]
        cases p.isWithin dir with
        | false => rfl
        | true =>
          simp only [Bool.not_true, Bool.false_eq_true, if_false, if_true]
          change (isFile p >>= _).outcome h₁ = _
          rw [outcome_bind, outcome_isFile, Host.isFile]
          cases hlook : h₁.look p with
          | error e => rfl
          | ok node =>
            rcases node with _ | _ | ⟨content, time⟩
            · rfl
            · rfl
            · have hread : (readText p).outcome h₁ = (.ok content.text, h₁) := by
                rw [readText, bind_of_ok (readContent_outcome_of_look hlook)]
                rfl
              change (readText p >>= _).outcome h₁ = _
              rw [bind_of_ok hread]
              rfl

section

variable {root : Option Path} {dir base : Path}

theorem sourceDir_outcome_ok_iff : (sourceDir root v).outcome h = (.ok dir, h') ↔
    ∃ base below, (rootOr root).outcome h = (.ok base, h') ∧
      (Layout.decompiled base v.name).outcome h' = (.ok below, h') ∧
      h'.resolve below = .ok dir := by
  constructor
  · intro hdir
    obtain ⟨base, h₁, hroot, hrest⟩ := bind_ok_iff.mp hdir
    obtain ⟨below, hbelow, hrest⟩ := (Layout.reads_decompiled base v.name).bind_ok hrest
    rw [outcome_resolve] at hrest
    obtain ⟨hresolve, rfl⟩ := Prod.mk.inj hrest
    exact ⟨base, below, hroot, hbelow, hresolve⟩
  · rintro ⟨base, below, hroot, hbelow, hresolve⟩
    rw [sourceDir, bind_of_ok hroot, bind_of_ok hbelow, outcome_resolve, hresolve]

theorem readSource_cases {r : Except Problem SourceText}
    (hread : (readSource root v (.str given)).outcome h = (.ok r, h')) :
    r = .error .missingPath ∨ sourceName given ≠ "" ∧
    ∃ dir p, (sourceDir root v).outcome h = (.ok dir, h') ∧
      h'.resolve (dir / sourceName given) = .ok p ∧
      (r = .error .outside ∨ r = .error (.noFile (sourceName given)) ∨
        p.isWithin dir ∧ ∃ content time, h'.look p = .ok (some (.file content time)) ∧
          r = .ok ⟨sourceName given, v, content.text⟩) := by
  rw [readSource_outcome_str] at hread
  split at hread
  · exact .inl (ok.inj (Prod.mk.inj hread).1).symm
  · next hname =>
    refine .inr ⟨hname, ?_⟩
    rcases hdir : (sourceDir root v).outcome h with ⟨e | dir, h₁⟩
    · rw [hdir] at hread
      cases (Prod.mk.inj hread).1
    · rw [hdir] at hread
      obtain ⟨hr, rfl⟩ := Prod.mk.inj hread
      obtain ⟨p, hp, hr⟩ := ok_of_bind hr
      refine ⟨dir, p, rfl, hp, ?_⟩
      split at hr
      · next hwithin =>
        obtain ⟨node, hlook, hr⟩ := ok_of_bind hr
        split at hr
        · exact .inr (.inr ⟨hwithin, _, _, hlook, (ok.inj hr).symm⟩)
        · exact .inr (.inl (ok.inj hr).symm)
      · exact .inl (ok.inj hr).symm

theorem readSource_outcome_of_rootOr (hroot : (rootOr root).outcome h = (.ok base, h'))
    (hholds : h'.HoldsDecompiled base v (sourceName given) text) :
    (readSource root v (.str given)).outcome h = (.ok (.ok ⟨sourceName given, v, text⟩), h') := by
  obtain ⟨hname, below, dir, p, content, time, hbelow, hdir, hp, hwithin, hlook, rfl⟩ := hholds
  rw [readSource_outcome_str, if_neg hname,
    sourceDir_outcome_ok_iff.mpr ⟨base, below, hroot, hbelow, hdir⟩]
  simp only [Host.sourceIn, hp, hlook, bind, Except.bind, hwithin, if_true]
  rfl

theorem showSource_outcome_of_rootOr (hroot : (rootOr root).outcome h = (.ok base, h'))
    (hholds : h'.HoldsDecompiled base v (sourceName given) text) {first last answer : Json}
    (hanswer : sourceJson ⟨sourceName given, v, text⟩ first last = .ok answer) :
    (showSource root v (.str given) first last).outcome h = (.ok (.ok answer), h') := by
  rw [showSource, bind_of_ok (readSource_outcome_of_rootOr hroot hholds)]
  simp only [hanswer]
  rfl

end

theorem holdsDecompiled_of_readSource {s : SourceText}
    (hread : (readSource (some root) v (.str given)).outcome h = (.ok (.ok s), h')) :
    s.name = sourceName given ∧ s.version = v ∧
      h.HoldsDecompiled root v (sourceName given) s.text := by
  rcases readSource_cases hread with hr | ⟨hname, dir, p, hdir, hp, hr | hr | hfound⟩
  · cases hr
  · cases hr
  · cases hr
  · obtain ⟨hwithin, content, time, hlook, hr⟩ := hfound
    obtain ⟨base, below, hroot, hbelow, hresolve⟩ := sourceDir_outcome_ok_iff.mp hdir
    obtain ⟨rfl, rfl⟩ := pure_ok hroot
    obtain rfl := ok.inj hr
    exact ⟨rfl, rfl, hname, below, dir, p, content, time, hbelow, hresolve, hp, hwithin, hlook, rfl⟩

def sourceAnswer (v : ServerVersion) (name : String) (text : List Char) : Json :=
  .obj [("content", .str (String.ofList text)), ("file_path", .str name), ("version", .str v.name)]

private theorem sourceJson_whole (s : SourceText) :
    sourceJson s .null .null = .ok (sourceAnswer s.version s.name s.text) :=
  rfl

theorem showSource_outcome_iff :
    (showSource (some root) v (.str given) .null .null).outcome h =
        (.ok (.ok (sourceAnswer v (sourceName given) text)), h) ↔
      h.HoldsDecompiled root v (sourceName given) text := by
  constructor
  · intro hshow
    obtain ⟨r, h₁, hread, hrest⟩ := bind_ok_iff.mp hshow
    cases r with
    | error problem =>
      obtain ⟨hproblem, -⟩ := pure_ok hrest
      exact nomatch hproblem
    | ok s =>
      obtain ⟨-, -, hholds⟩ := holdsDecompiled_of_readSource hread
      obtain ⟨json, h₂, hjson, hlast⟩ := bind_ok_iff.mp hrest
      obtain ⟨hjson, -⟩ := ofExcept_ok hjson
      obtain ⟨hsame, -⟩ := pure_ok hlast
      rw [sourceJson_whole] at hjson
      cases hjson
      have htext : String.ofList s.text = String.ofList text := by
        simp only [sourceAnswer, ok.injEq, Json.obj.injEq, List.cons.injEq,
          Prod.mk.injEq, Json.str.injEq] at hsame
        exact hsame.1.2
      rw [String.ofList_injective htext] at hholds
      exact hholds
  · exact fun hholds => showSource_outcome_of_rootOr rfl hholds (sourceJson_whole _)

/-- After a successful run, reading the path of a class answers with the text that was indexed
exactly when the directory of decompiled code holds the same text under the same name. -/
theorem class_readBack_iff {root : Path} {version : String} {h h' : Host}
    {stats : Nat × Nat × Nat}
    (hindex : (indexVersion root version).outcome h = (.ok (.ok stats), h')) :
    ∃ dir database c,
      (Layout.sources root version).outcome h = (.ok dir, h) ∧
      (Layout.catalogue root version).outcome h = (.ok database, h) ∧
      (queryDatabase database fun d => .ok d.api).outcome h' = (.ok (some c), h') ∧
      ∀ row ∈ c.classes.rows, ∃ f ∈ SourceFile.below h dir, row.filePath = f.path ∧
        (∃ d ∈ Java.extract (String.ofList f.text), row = d.classRow f.path row.id) ∧
        ((showSource (some root) (.ofText version) (.str row.filePath) .null .null).outcome h' =
            (.ok (.ok (sourceAnswer (.ofText version) (sourceName f.path) f.text)), h') ↔
          h'.HoldsDecompiled root (.ofText version) (sourceName f.path) f.text) := by
  obtain ⟨dir, database, writer, d, hdir, hdatabase, hdone⟩ := indexVersion_outcome_ok hindex
  refine ⟨dir, database, writer.catalogue, hdir, hdatabase, ?_, fun row hrow => ?_⟩
  · rw [queryDatabase_outcome hdone.stores, hdone.api]
  · obtain ⟨t, ht, hfrom⟩ := Writer.addTypes_origin hdone.adds row hrow
    obtain ⟨f, hf, htypes⟩ := List.mem_flatMap.mp ht
    obtain ⟨decl, hdecl, rfl⟩ := List.mem_map.mp htypes
    have hpath : row.filePath = f.path := by rw [hfrom]; rfl
    refine ⟨f, hf, hpath, ⟨decl, hdecl, hfrom⟩, ?_⟩
    rw [hpath]
    exact showSource_outcome_iff

/-- Whether a question was answered with the problem that nothing was found. -/
private def isNotFound : Except Fault (Except Problem Json) → Bool
  | .ok (.error problem) => problem.kind == "not_found"
  | _ => false

/-- In a small workspace with sources only, reading the file of an indexed class finds nothing. -/
theorem showSource_smallWorkspace
    (hindex : (indexVersion (.absolute ["w"]) "release").outcome smallWorkspace =
      (.ok (.ok (1, 1, 0)), h')) :
    ∃ problem, ((showSource (some (.absolute ["w"])) (.ofText "release") (.str "A.java") .null
      .null).outcome h').1 = .ok (.error problem) ∧ problem.kind = "not_found" := by
  have hboth : isNotFound ((indexVersion (.absolute ["w"]) "release" >>= fun _ =>
      showSource (some (.absolute ["w"])) (.ofText "release") (.str "A.java") .null
        .null).outcome smallWorkspace).1 = true := by
    simp only [indexVersion, Console.withProgress_release]
    clear hindex
    decide +kernel
  rw [bind_of_ok hindex] at hboth
  unfold isNotFound at hboth
  split at hboth
  · next problem hproblem => exact ⟨problem, hproblem, beq_iff_eq.mp hboth⟩
  · simp at hboth

/-- A class of a small workspace is found in a source file and cannot be read back. -/
theorem class_not_readBack_smallWorkspace :
    ∃ h' c row, ∃ f ∈ SourceFile.below smallWorkspace
        (.absolute ["w", "workspace", "sources", "release"]),
      (indexVersion (.absolute ["w"]) "release").outcome smallWorkspace =
        (.ok (.ok (1, 1, 0)), h') ∧
      (queryDatabase smallDatabase fun d => .ok d.api).outcome h' = (.ok (some c), h') ∧
      row ∈ c.classes.rows ∧ row.filePath = f.path ∧
      ¬ h'.HoldsDecompiled (.absolute ["w"]) (.ofText "release") (sourceName f.path) f.text := by
  obtain ⟨h', hindex⟩ := indexVersion_smallWorkspace
  obtain ⟨dir, database, c, hdir, hdatabase, hapi, hrows⟩ := class_readBack_iff hindex
  rw [sources_smallWorkspace] at hdir
  rw [catalogue_smallWorkspace] at hdatabase
  obtain rfl := Except.ok.inj (Prod.mk.inj hdir).1
  obtain rfl := Except.ok.inj (Prod.mk.inj hdatabase).1
  obtain ⟨c', hholds, hapi', -⟩ := indexVersion_holds hindex sources_smallWorkspace
    catalogue_smallWorkspace distinct_smallWorkspace
  obtain rfl : c = c' := by
    rw [hapi] at hapi'
    exact Option.some.inj (Except.ok.inj (Prod.mk.inj hapi').1)
  have hrow : smallType.classRow "A.java" 1 ∈ c.classes.rows := by
    rw [hholds.classes, types_smallWorkspace]
    exact List.mem_singleton_self _
  obtain ⟨f, hf, hpath, -, hiff⟩ := hrows _ hrow
  refine ⟨h', c, _, f, hf, hindex, hapi, hrow, hpath, fun hheld => ?_⟩
  obtain ⟨problem, hproblem, -⟩ := showSource_smallWorkspace hindex
  have hshown := hiff.mpr hheld
  rw [show (smallType.classRow "A.java" 1).filePath = "A.java" from rfl] at hshown
  rw [hshown] at hproblem
  exact nomatch hproblem

/-! ### Which files can be read -/

open Path FileTree

theorem slashes_parse_sourceName (given : String) :
    (parse (sourceName given)).slashes = 0 := by
  have hfront (cs : List Char) : (cs.dropWhile (· == '/')).takeWhile (· == '/') = [] := by
    induction cs with
    | nil => rfl
    | cons c cs ih =>
      cases hc : c == '/' with
      | true => simp only [List.dropWhile_cons, hc, if_true, ih]
      | false => simp [hc]
  simp only [parse, sourceName, String.toList_ofList, hfront]
  rfl

section

variable {root : Option Path} {v : ServerVersion} {given : String} {h h' : Host} {dir p : Path}

theorem Host.eq_of_resolve {below : Path} (hresolve : h.resolve below = .ok dir) :
    dir = below.resolve h.here := by
  unfold Host.resolve at hresolve
  split at hresolve
  · cases hresolve
  · exact (ok.inj hresolve).symm

theorem sourceDir_normal (hdir : (sourceDir root v).outcome h = (.ok dir, h')) :
    ∃ place, dir = .absolute place ∧ ".." ∉ place := by
  obtain ⟨base, below, -, -, hresolve⟩ := sourceDir_outcome_ok_iff.mp hdir
  obtain rfl := Host.eq_of_resolve hresolve
  exact ⟨_, rfl, not_mem_parts_resolve _ _⟩

theorem resolve_sourceName {place : Place} (hdown : ".." ∉ place)
    (hresolve : h.resolve (absolute place / sourceName given) = .ok p) :
    p = .absolute (reached place (partsOf (sourceName given))) := by
  rw [Host.eq_of_resolve hresolve, resolve_join hdown (slashes_parse_sourceName given)]

theorem readSource_outside (hdir : (sourceDir root v).outcome h = (.ok dir, h'))
    (hnull : (dir / sourceName given).hasNull = false)
    (hout : ¬ dir.parts <+: reached dir.parts (partsOf (sourceName given))) :
    (readSource root v (.str given)).outcome h = (.ok (.error .outside), h') := by
  have hname : sourceName given ≠ "" := by
    intro hempty
    rw [hempty] at hout
    exact hout (List.prefix_refl _)
  obtain ⟨place, rfl, hdown⟩ := sourceDir_normal hdir
  have hrefused : (absolute (reached place
      (partsOf (sourceName given)))).isWithin (.absolute place) = false := by
    rw [← Bool.not_eq_true, isWithin_absolute_iff]
    exact hout
  rw [readSource_outcome_str, if_neg hname, hdir]
  simp only [Host.sourceIn, Host.resolve, hnull, Bool.false_eq_true, if_false, bind, Except.bind,
    resolve_join hdown (slashes_parse_sourceName given), hrefused]
  rfl

end

/-- A regular file below a place, or at the place itself if no directory is there, has the text. -/
def FileTree.HoldsWithin (t : FileTree) (dir : Place) (text : List Char) : Prop :=
  ∃ rest content time, ".." ∉ rest ∧ t.get? (dir ++ rest) = some (.file content time) ∧
    content.text = text ∧ (rest = [] ↔ t.isFile dir = true)

variable {h : Host} {s : SourceText}

theorem FileTree.holdsWithin_of_look {dir place : Place} {content : Content} {time : Nat}
    (hdown : ".." ∉ place) (hwithin : dir <+: place)
    (hlook : h.look (.absolute place) = .ok (some (.file content time))) :
    h.files.HoldsWithin dir content.text := by
  obtain ⟨-, goal, time', hlocate, hget⟩ := Host.holds_of_look hlook
  have hwalk := Host.walk_of_locate hlocate
  obtain rfl : goal = place := (eq_reached_of_walk hwalk).trans (reached_of_not_mem hdown)
  obtain ⟨rest, rfl⟩ := hwithin
  have hdir : ".." ∉ dir := fun hmem => hdown (List.mem_append_left _ hmem)
  have hrest : ".." ∉ rest := fun hmem => hdown (List.mem_append_right _ hmem)
  refine ⟨rest, content, time', hrest, hget, rfl, ?_, ?_⟩
  · rintro rfl
    rw [List.append_nil] at hget
    exact isFile_iff.mpr ⟨content, time', hget⟩
  · intro hfile
    obtain ⟨content', time'', hfile⟩ := isFile_iff.mp hfile
    obtain ⟨mid, hfront, hback⟩ := walk_append hwalk
    obtain rfl : mid = dir := (eq_reached_of_walk hfront).trans (reached_of_not_mem hdir)
    cases rest with
    | nil => rfl
    | cons part rest =>
      have hisDir := isDir_iff.mp (isDir_of_walk_cons hback)
      rw [hfile] at hisDir
      cases hisDir

theorem holdsWithin_of_readSource {root : Option Path} {v : ServerVersion} {given : String}
    {h' : Host} (hread : (readSource root v (.str given)).outcome h = (.ok (.ok s), h')) :
    ∃ dir, (sourceDir root v).outcome h = (.ok dir, h') ∧
      h'.files.HoldsWithin dir.parts s.text := by
  rcases readSource_cases hread with hnone | ⟨-, dir, p, hdir, hresolve, hout | hnone | hfound⟩
  · cases hnone
  · cases hout
  · cases hnone
  · obtain ⟨hwithin, content, time, hlook, hs⟩ := hfound
    obtain rfl := ok.inj hs
    obtain ⟨place, rfl, hdown⟩ := sourceDir_normal hdir
    obtain rfl := resolve_sourceName hdown hresolve
    refine ⟨.absolute place, hdir, ?_⟩
    apply holdsWithin_of_look (not_mem_reached hdown _) ?_ hlook
    exact isWithin_absolute_iff.mp hwithin

/-- What is shown of a text: all of it, or some of its lines in a row. -/
def ShowsPart (text : List Char) (shown : Json) : Prop :=
  shown = .str (String.ofList text) ∨ ∃ before lines after,
    Text.lines text = before ++ lines ++ after ∧ shown = .str (joinLines lines)

theorem exists_append_slice {α : Type} (start stop : Int) (items : List α) :
    ∃ before after, items = before ++ slice start stop items ++ after := by
  have hcut (m n : Nat) :
      items = (items.take n).take m ++ (items.take n).drop m ++ items.drop n := by
    rw [List.take_append_drop, List.take_append_drop]
  exact ⟨_, _, hcut _ _⟩

theorem showsPart_slice (text : List Char) (start stop : Int) :
    ShowsPart text (.str (joinLines (slice start stop (Text.lines text)))) := by
  obtain ⟨before, after, hcut⟩ := exists_append_slice start stop (Text.lines text)
  exact .inr ⟨before, _, after, hcut, rfl⟩

def Json.content? : Json → Option Json
  | .obj fields => lookup "content" fields
  | _ => none

theorem showsPart_sourceJson {first last answer : Json}
    (hanswer : sourceJson s first last = .ok answer) :
    ∃ shown, answer.content? = some shown ∧ ShowsPart s.text shown := by
  unfold sourceJson at hanswer
  simp only at hanswer
  split at hanswer
  · cases hanswer
    exact ⟨_, rfl, .inl rfl⟩
  · obtain ⟨from?, -, hanswer⟩ := ok_of_bind hanswer
    obtain ⟨to?, -, hanswer⟩ := ok_of_bind hanswer
    cases hanswer
    exact ⟨_, rfl, showsPart_slice _ _ _⟩

section

variable {root : Option Path} {v : ServerVersion} {version : Json} {given : String} {h h' : Host}

theorem holdsWithin_of_showSource {first last answer : Json}
    (hshow : (showSource root v (.str given) first last).outcome h = (.ok (.ok answer), h')) :
    ∃ dir text shown, (sourceDir root v).outcome h = (.ok dir, h') ∧
      h'.files.HoldsWithin dir.parts text ∧ answer.content? = some shown ∧
      ShowsPart text shown := by
  obtain ⟨r, h₁, hread, hrest⟩ := bind_ok_iff.mp hshow
  cases r with
  | error problem =>
    obtain ⟨hproblem, -⟩ := pure_ok hrest
    cases hproblem
  | ok s =>
    obtain ⟨json, h₂, hwhole, hlast⟩ := bind_ok_iff.mp hrest
    obtain ⟨hjson, rfl⟩ := ofExcept_ok hwhole
    obtain ⟨hanswer, rfl⟩ := pure_ok hlast
    cases hanswer
    obtain ⟨dir, hdir, hholds⟩ := holdsWithin_of_readSource hread
    obtain ⟨shown, hshown, hpart⟩ := showsPart_sourceJson hjson
    exact ⟨dir, s.text, shown, hdir, hholds, hshown, hpart⟩

theorem holdsWithin_of_showAround {target window answer shown : Json}
    (hshow : (showAround root version (.str given) target window).outcome h = (.ok answer, h'))
    (hshown : answer.content? = some shown) :
    ∃ dir text, (sourceDir root (.ofValue version)).outcome h = (.ok dir, h') ∧
      h'.files.HoldsWithin dir.parts text ∧ ShowsPart text shown := by
  obtain ⟨r, h₁, hread, hrest⟩ := bind_ok_iff.mp hshow
  cases r with
  | error problem =>
    obtain ⟨rfl, -⟩ := pure_ok hrest
    -- No problem shows a content.
    rcases readSource_cases hread with hr | ⟨-, dir, p, -, -, hr | hr | ⟨-, _, _, -, hr⟩⟩
    all_goals
      cases hr
      try cases hshown
  | ok s =>
    obtain ⟨i?, h₂, hline, hrest⟩ := bind_ok_iff.mp hrest
    obtain ⟨-, rfl⟩ := ofExcept_ok hline
    obtain ⟨dir, hdir, hholds⟩ := holdsWithin_of_readSource hread
    cases i? with
    | none =>
      obtain ⟨rfl, -⟩ := pure_ok hrest
      cases hshown
    | some i =>
      obtain ⟨⟨start, stop⟩, h₃, haround, hlast⟩ := bind_ok_iff.mp hrest
      obtain ⟨-, rfl⟩ := ofExcept_ok haround
      obtain ⟨rfl, rfl⟩ := pure_ok hlast
      cases hshown
      exact ⟨dir, s.text, hdir, hholds, showsPart_slice _ _ _⟩

end

/-- What is shown comes from a file within the directory of decompiled code of the version that is
meant. A name that leads out of the directory is refused, whatever it leads to. -/
theorem source_confined (root : Option Path) (version : Json) (given : String) (h h' : Host) :
    (∀ first last answer,
      (showSource root (.ofValue version) (.str given) first last).outcome h =
        (.ok (.ok answer), h') →
      ∃ dir text shown, (sourceDir root (.ofValue version)).outcome h = (.ok dir, h') ∧
        h'.files.HoldsWithin dir.parts text ∧ answer.content? = some shown ∧
        ShowsPart text shown) ∧
    (∀ target window answer shown,
      (showAround root version (.str given) target window).outcome h = (.ok answer, h') →
      answer.content? = some shown →
      ∃ dir text, (sourceDir root (.ofValue version)).outcome h = (.ok dir, h') ∧
        h'.files.HoldsWithin dir.parts text ∧ ShowsPart text shown) ∧
    ∀ dir, (sourceDir root (.ofValue version)).outcome h = (.ok dir, h') →
      (dir / sourceName given).hasNull = false →
      ¬ dir.parts <+: FileTree.reached dir.parts (Path.partsOf (sourceName given)) →
      (∀ first last, (showSource root (.ofValue version) (.str given) first last).outcome h =
        (.ok (.error .outside), h')) ∧
      ∀ target window, (showAround root version (.str given) target window).outcome h =
        (.ok Problem.outside.toJson, h') := by
  refine ⟨fun _ _ _ => holdsWithin_of_showSource, fun _ _ _ _ => holdsWithin_of_showAround, ?_⟩
  intro dir hdir hnull hout
  have hread := readSource_outside hdir hnull hout
  constructor
  · intro first last
    rw [showSource, bind_of_ok hread]
    rfl
  · intro target window
    rw [showAround, bind_of_ok hread]
    rfl

def misplacedWorkspace : Host where
  files := ⟨[
    (["w"], .directory), (["w", "workspace"], .directory),
    (["w", "workspace", "decompiled"], .directory),
    (["w", "workspace", "decompiled", "release"], .file (.ofText "hello") 1)]⟩

/-- The file in the place of the directory is shown, although no file is below the directory. -/
theorem showSource_misplacedWorkspace :
    (showSource (some (.absolute ["w"])) .release (.str ".") .null .null).outcome
        misplacedWorkspace =
      (.ok (.ok (sourceAnswer .release "." "hello".toList)), misplacedWorkspace) ∧
    (sourceDir (some (.absolute ["w"])) .release).outcome misplacedWorkspace =
      (.ok (.absolute ["w", "workspace", "decompiled", "release"]), misplacedWorkspace) ∧
    ∀ rest, rest ≠ [] → misplacedWorkspace.files.get?
      (["w", "workspace", "decompiled", "release"] ++ rest) = none := by
  refine ⟨?_, rfl, ?_⟩
  · have hname : sourceName "." = "." := by decide +kernel
    have hholds : misplacedWorkspace.HoldsDecompiled (.absolute ["w"]) .release (sourceName ".")
        "hello".toList := by
      rw [hname]
      exact ⟨by decide, _, _, _, .ofText "hello", 1, rfl, rfl, rfl, rfl, rfl, by decide +kernel⟩
    have hshow := showSource_outcome_iff.mpr hholds
    rwa [hname] at hshow
  · intro rest hrest
    cases rest with
    | nil => exact absurd rfl hrest
    | cons part rest => rfl

def sourceWorkspace : Host where
  files := ⟨[
    (["w"], .directory), (["w", "workspace"], .directory),
    (["w", "workspace", "decompiled"], .directory),
    (["w", "workspace", "decompiled", "release"], .directory),
    (["w", "workspace", "decompiled", "release", "A.java"], .file (.ofText "class A") 1),
    (["w", "workspace", "decompiled", "releases"], .directory),
    (["w", "workspace", "decompiled", "releases", "B.java"], .file (.ofText "class B") 2)]⟩

/-- The file in the directory is shown, and the one in the directory of a similar name is not. -/
theorem source_confined_sourceWorkspace :
    (∃ answer, (showSource (some (.absolute ["w"])) (.ofValue (.str "Release ")) (.str "/A.java")
        .null .null).outcome sourceWorkspace = (.ok (.ok answer), sourceWorkspace) ∧
      ∃ dir text shown, (sourceDir (some (.absolute ["w"])) (.ofValue (.str "Release "))).outcome
          sourceWorkspace = (.ok dir, sourceWorkspace) ∧
        sourceWorkspace.files.HoldsWithin dir.parts text ∧ answer.content? = some shown ∧
        ShowsPart text shown) ∧
    ((showSource (some (.absolute ["w"])) (.ofValue (.str "Release ")) (.str "..\\releases/B.java")
      .null .null).outcome sourceWorkspace = (.ok (.error .outside), sourceWorkspace)) := by
  have hversion : ServerVersion.ofValue (.str "Release ") = .release := by decide +kernel
  have hdir : (sourceDir (some (.absolute ["w"])) (.ofValue (.str "Release "))).outcome
      sourceWorkspace =
      (.ok (.absolute ["w", "workspace", "decompiled", "release"]), sourceWorkspace) := by
    rw [hversion]
    rfl
  constructor
  · have hname : sourceName "/A.java" = "A.java" := by decide +kernel
    have hholds : sourceWorkspace.HoldsDecompiled (.absolute ["w"]) (.ofValue (.str "Release "))
        (sourceName "/A.java") "class A".toList := by
      rw [hname, hversion]
      exact ⟨by decide, _, _, _, .ofText "class A", 1, rfl, rfl, rfl, rfl, rfl, by decide +kernel⟩
    have hshow := showSource_outcome_iff.mpr hholds
    exact ⟨_, hshow, (source_confined _ _ "/A.java" _ _).1 _ _ _ hshow⟩
  · exact ((source_confined _ _ "..\\releases/B.java" _ _).2.2 _ hdir (by decide +kernel)
      (by decide +kernel)).1 _ _

end JarAtlas
