import JarAtlas.Proofs.Assets.Contents
import JarAtlas.Proofs.Explore.Names
import Mathlib.Data.List.Count

/-!
Searching the assets of an archive in which names may occur again. A further file of a name takes
the row of the earlier one but adds a full-text entry to it, and a search lists an asset once for
each entry. So a query gives distinct paths only if each asset that it asks for has a name that
occurs once.
-/

open List

namespace JarAtlas

open JarAtlas.Action Asset Query

def Asset.texts (a : Asset) : List (List Char) :=
  [a.path, a.category.getD "", a.internalId.getD "", a.metadata.getD ""].map String.toList

def Asset.isAskedBy (query : String) (a : Asset) : Bool :=
  assetScheme.asksFor (Query.prepare query).toList (assetScheme.doc a.texts)

theorem AssetEntry.Mirrors.texts_eq {e : AssetEntry} {a : Asset} (hmirrors : e.Mirrors a) :
    e.texts = a.texts := by
  have hpath : e.path.asText = some a.path := by
    rw [hmirrors.path]
    rfl
  simp only [AssetEntry.texts, Asset.texts, hpath, hmirrors.category, hmirrors.internalId,
    hmirrors.metadata, map_cons, map_nil, Option.getD_some]

theorem AssetTable.paths_asked {t : AssetTable}
    (hfind : ∀ a ∈ t.assets.rows, t.find? a.path = some a) {entries : List AssetEntry}
    {names : List String} (hmirrors : List.Forall₂ (fun e name =>
      ∃ a ∈ t.assets.rows, a.path = name ∧ e.Mirrors a) entries names) (query : String) :
    ((entries.filter fun e => assetScheme.asksFor (prepare query).toList
        (assetScheme.doc e.texts)).filterMap fun e => e.path.text?.bind t.find?).map path =
      names.filter fun name => (t.find? name).any (isAskedBy query) := by
  induction hmirrors with
  | nil => rfl
  | @cons e name entries names hentry _ ih =>
    obtain ⟨a, ha, rfl, hentry⟩ := hentry
    have hasks : assetScheme.asksFor (prepare query).toList (assetScheme.doc e.texts) =
        a.isAskedBy query := by
      rw [hentry.texts_eq, isAskedBy]
    have hlookup : e.path.text?.bind t.find? = some a := by
      rw [hentry.path]
      exact hfind a ha
    rw [filter_cons, filter_cons, hasks, hfind a ha, Option.any_some]
    cases a.isAskedBy query with
    | false => exact ih
    | true => simp only [if_true, filterMap_cons, hlookup, map_cons, ih]

namespace AssetTable.Follows

variable {t : AssetTable} {rowOf : String → Option Asset} {names : List String}
  (hfollows : t.Follows rowOf names)

include hfollows

theorem mirrors :
    List.Forall₂ (fun e name => ∃ a ∈ t.assets.rows, a.path = name ∧ e.Mirrors a)
      t.entries names := by
  obtain ⟨hlength, hpairs⟩ := forall₂_iff_zip.mp hfollows.entries
  apply forall₂_iff_zip.mpr
  refine ⟨hlength, ?_⟩
  intro e name hpair
  obtain ⟨a, hrow, rfl, hmirrors⟩ := hpairs hpair
  exact ⟨a, (hfollows.mem_rows_iff a).mpr ⟨(of_mem_zip hpair).2, hrow⟩, rfl, hmirrors⟩

theorem paths_entries : t.entries.map AssetEntry.path = names.map Cell.text := by
  rw [← forall₂_eq_eq_eq, forall₂_map_left_iff, forall₂_map_right_iff]
  apply hfollows.mirrors.imp
  rintro e name ⟨a, -, rfl, hmirrors⟩
  exact hmirrors.path

theorem find?_of_mem {a : Asset} (ha : a ∈ t.assets.rows) : t.find? a.path = some a :=
  hfollows.find?_eq_some_iff.mpr ((hfollows.mem_rows_iff a).mp ha)

theorem count_entries (path : String) :
    (t.entries.map AssetEntry.path).count (.text path) = names.count path := by
  rw [hfollows.paths_entries]
  apply count_map_of_injective
  intro left right hsame
  exact Cell.text.inj hsame

theorem one_entry_iff :
    (∀ a ∈ t.assets.rows, (t.entries.map AssetEntry.path).count (.text a.path) = 1) ↔
      names.Nodup := by
  rw [nodup_iff_count_eq_one]
  constructor
  · intro hone name hname
    obtain ⟨a, ha, -, rfl⟩ := hfollows.exists_row hname
    rw [← hfollows.count_entries]
    exact hone a ha
  · intro hone a ha
    rw [hfollows.count_entries]
    exact hone a.path ((hfollows.mem_rows_iff a).mp ha).1

theorem search_perm {query : String}
    (hquery : assetScheme.problem? (prepare query).toList = none) :
    ∃ found, t.search (prepare query) = .ok found ∧
      (found.map path).Perm
        (names.filter fun name => (t.find? name).any (isAskedBy query)) := by
  obtain ⟨hits, hsearch, hperm⟩ :=
    FullText.search_of_problem?_eq_none hquery AssetEntry.texts t.entries
  refine ⟨hits.filterMap fun e => e.path.text?.bind t.find?, ?_, ?_⟩
  · rw [AssetTable.search, hsearch]
    rfl
  · rw [← AssetTable.paths_asked (fun a => hfollows.find?_of_mem) hfollows.mirrors]
    exact (hperm.filterMap _).map _

end AssetTable.Follows

theorem nodup_filter_iff {names : List String} {p : String → Bool} :
    (names.filter p).Nodup ↔ ∀ name ∈ names, p name → names.count name = 1 := by
  rw [nodup_iff_count_eq_one]
  constructor
  · intro hone name hname hp
    rw [← count_filter hp]
    exact hone name (mem_filter.mpr ⟨hname, hp⟩)
  · intro hone name hname
    obtain ⟨hname, hp⟩ := mem_filter.mp hname
    rw [count_filter hp]
    exact hone name hname hp

namespace Database

variable {d : Database} {t : AssetTable} {query : String} (hreadable : d.isReadable = true)
  (htable : d.assets = some t)

include hreadable htable

theorem searchAssets_eq (hquery : Text.strip query ≠ "") (limit : Json) :
    d.searchAssets (.str query) limit = do
      let limit ← rowLimit 2 limit
      if limit == some 0 then return []
      return takeLimit limit (← queryOutcome (t.search (prepare query))) := by
  have hpart : d.assetTable "assets" = .ok t := by
    simp only [assetTable, part, hreadable, htable]
  simp only [searchAssets, Json.givenText_str, beq_eq_false_iff_ne.mpr hquery, hpart, bind,
    Except.bind, Bool.false_eq_true, if_false]

theorem sublist_of_searchAssets {limit : Json} {found : List Asset}
    (hfound : d.searchAssets (.str query) limit = .ok found) :
    found = [] ∨ ∃ all, t.search (prepare query) = .ok all ∧ found.Sublist all := by
  by_cases hblank : Text.strip query = ""
  · left
    rw [searchAssets, Json.givenText_str] at hfound
    obtain ⟨text, htext, hfound⟩ := ok_of_bind hfound
    rw [← Except.ok.inj htext, hblank] at hfound
    exact (Except.ok.inj hfound).symm
  · rw [searchAssets_eq hreadable htable hblank] at hfound
    obtain ⟨n, -, hfound⟩ := ok_of_bind hfound
    split at hfound
    · exact .inl (Except.ok.inj hfound).symm
    · obtain ⟨all, hall, hfound⟩ := ok_of_bind hfound
      right
      refine ⟨all, ?_, ?_⟩
      · cases hsearch : t.search (prepare query) with
        | error e =>
          rw [hsearch] at hall
          cases hall
        | ok rows =>
          rw [hsearch] at hall
          rw [Except.ok.inj hall]
      · rw [← Except.ok.inj hfound]
        cases n with
        | none => exact List.Sublist.refl all
        | some n => exact take_sublist n all

theorem searchAssets_all (hquery : Text.strip query ≠ "") {all : List Asset}
    (hall : t.search (prepare query) = .ok all) :
    d.searchAssets (.str query) (.int (-1)) = .ok all := by
  rw [searchAssets_eq hreadable htable hquery, hall]
  rfl

theorem searchAssets_ofNat (hquery : Text.strip query ≠ "") {n : Nat} (hn : 0 < n) :
    d.searchAssets (.str query) (.ofNat n) =
      if Cell.fits n then (queryOutcome (t.search (prepare query))).map (take n)
      else .error .tooLarge := by
  have hlimit : rowLimit 2 (.ofNat n) =
      if Cell.fits n then .ok (some n) else .error .tooLarge := by
    have hnat : ¬ Int.ofNat n < 0 := by simp
    rw [Json.ofNat, rowLimit_int]
    simp only [if_neg hnat]
    rfl
  have hroom : (some n == some 0) = false := by simpa using Nat.ne_of_gt hn
  rw [searchAssets_eq hreadable htable hquery, hlimit]
  split
  · simp only [bind, Except.bind, hroom, Bool.false_eq_true, if_false]
    cases queryOutcome (t.search (prepare query)) <;> rfl
  · rfl

theorem searchAssets_distinct_iff {rowOf : String → Option Asset} {names : List String}
    (hfollows : t.Follows rowOf names) (query : String) :
    (∀ limit found, d.searchAssets (.str query) limit = .ok found →
        (found.map path).Nodup) ↔
      ∀ a ∈ t.assets.rows, a.isAskedBy query → names.count a.path = 1 := by
  constructor
  · intro hdistinct a ha hasks
    have hquery : Text.strip query ≠ "" := by
      intro hblank
      rw [isAskedBy, asksFor_of_blank hblank] at hasks
      cases hasks
    obtain ⟨all, hall, hperm⟩ :=
      hfollows.search_perm (FullText.Scheme.problem?_eq_none_of_asksFor hasks)
    have hnodup := hdistinct _ all (searchAssets_all hreadable htable hquery hall)
    rw [hperm.nodup_iff, nodup_filter_iff] at hnodup
    apply hnodup a.path ((hfollows.mem_rows_iff a).mp ha).1
    rw [hfollows.find?_of_mem ha, Option.any_some]
    exact hasks
  · intro honce limit found hfound
    rcases sublist_of_searchAssets hreadable htable hfound with rfl | ⟨all, hall, hpart⟩
    · exact nodup_nil
    · apply (hpart.map path).nodup
      cases hproblem : assetScheme.problem? (prepare query).toList with
      | some e =>
        rw [AssetTable.search, FullText.search_of_problem hproblem] at hall
        cases hall
      | none =>
        obtain ⟨rows, hrows, hperm⟩ := hfollows.search_perm hproblem
        obtain rfl := Except.ok.inj (hrows.symm.trans hall)
        rw [hperm.nodup_iff, nodup_filter_iff]
        intro name hname hasks
        obtain ⟨a, ha, -, rfl⟩ := hfollows.exists_row hname
        rw [hfollows.find?_of_mem ha, Option.any_some] at hasks
        exact honce a ha hasks

end Database

namespace Assets

variable {database archive : Path} {entries : List ArchiveEntry} {v : String} {h h' : Host}
  {told : List Report}

/-- After a completed run a query gives distinct paths, whatever the limit, exactly if the name of
each asset that it asks for occurs once in the archive. -/
theorem search_distinct_iff (harchive : h.Holds archive (.archive entries))
    (hrun : (index database archive (.str v)).outcome h = (.ok (told, .ok ()), h')) :
    ∃ t, (queryDatabase database fun d => .ok d.assets).outcome h' = (.ok (some t), h') ∧
      (t.assets.rows.map Asset.path).Nodup ∧
      List.Forall₂ (fun e name => ∃ a ∈ t.assets.rows, a.path = name ∧ e.Mirrors a) t.entries
        (fileNames entries) ∧
      ((∀ a ∈ t.assets.rows, (t.entries.map AssetEntry.path).count (.text a.path) = 1) ↔
        (fileNames entries).Nodup) ∧
      ∀ query : String,
        (∀ limit found, (searchIn database (.str query) limit).outcome h' = (.ok found, h') →
          (found.map Asset.path).Nodup) ↔
        ∀ a ∈ t.assets.rows, a.isAskedBy query = true →
          (fileNames entries).count a.path = 1 := by
  obtain ⟨d, t, hstores, hreadable, htable, hfollows⟩ := stores_of_completed harchive hrun
  refine ⟨t, ?_, hfollows.nodup, hfollows.mirrors, hfollows.one_entry_iff, ?_⟩
  · rw [queryDatabase_outcome hstores, htable]
  · intro query
    rw [← Database.searchAssets_distinct_iff hreadable htable hfollows query]
    refine forall₂_congr fun limit found => ?_
    rw [searchIn, queryDatabase_outcome hstores, Prod.mk.injEq, and_iff_left rfl]

theorem isAskedBy_moonWorkspace :
    (rowNamed? "release" moonEntries "Sky/Moon.png").any (isAskedBy "Moon") := by
  decide +kernel

/-- The image has two entries, as its name occurs twice, and a search that asks for it lists it
more than once. -/
theorem search_repeats_moonWorkspace :
    ∃ told h', (index (.absolute ["w", "assets.db"]) (.absolute ["w", "assets.zip"])
        (.str "release")).outcome moonWorkspace = (.ok (told, .ok ()), h') ∧
      (∃ t, (queryDatabase (.absolute ["w", "assets.db"]) fun d => .ok d.assets).outcome h' =
          (.ok (some t), h') ∧
        ∃ a ∈ t.assets.rows, (t.entries.map AssetEntry.path).count (.text a.path) ≠ 1) ∧
      ∃ limit found, (searchIn (.absolute ["w", "assets.db"]) (.str "Moon") limit).outcome h' =
        (.ok found, h') ∧ ¬ (found.map Asset.path).Nodup := by
  obtain ⟨told, h', hrun⟩ := completes_moonWorkspace
  obtain ⟨d, t, hstores, -, htable, hfollows⟩ := stores_of_completed holds_moonWorkspace hrun
  obtain ⟨t', hquery, -, -, hone, hdistinct⟩ := search_distinct_iff holds_moonWorkspace hrun
  have hsame : t' = t := by
    rw [queryDatabase_outcome hstores, htable] at hquery
    exact (Option.some.inj (Except.ok.inj (Prod.mk.inj hquery).1)).symm
  subst hsame
  have htwice : ¬ (fileNames moonEntries).Nodup := by decide
  rw [← hone] at htwice
  push Not at htwice
  have hname : "Sky/Moon.png" ∈ fileNames moonEntries := by decide
  obtain ⟨a, ha, hrow, hpath⟩ := hfollows.exists_row hname
  have hasks := isAskedBy_moonWorkspace
  rw [hrow, Option.any_some] at hasks
  have hlisted : ¬ ∀ limit found, (searchIn (.absolute ["w", "assets.db"]) (.str "Moon")
      limit).outcome h' = (.ok found, h') → (found.map Asset.path).Nodup := by
    rw [hdistinct]
    intro honce
    have hcount := honce a ha hasks
    rw [hpath] at hcount
    exact absurd hcount (by decide)
  push Not at hlisted
  exact ⟨told, h', hrun, ⟨t', hquery, htwice⟩, hlisted⟩

end Assets

/-! ### Searching for an asset by its own path -/

open JarAtlas.Action
open JarAtlas.FullText (lexemes trigramTokens Mentions)
open JarAtlas.Query (quoted classFilter)

/-! ### Paths as queries -/

def isPathChar (c : Char) : Bool :=
  !Text.isBlank c && c != '"' && c != '*' && c.toNat != 0

example : "ABCDEFGHIJKLMNOPQRSTUVWXYZabcdefghijklmnopqrstuvwxyz0123456789_-/.".toList.all
    isPathChar = true := by decide

theorem isPathChar_iff {c : Char} : isPathChar c ↔
    Text.isBlank c = false ∧ c ≠ '"' ∧ c ≠ '*' ∧ c.toNat ≠ 0 := by
  simp [isPathChar, and_assoc]

namespace Query

/-- Whether a capital follows the last dot. -/
def namesClass (cs : List Char) : Bool :=
  (Text.splitLast? '.' cs).any fun parts => parts.2.head?.any Text.isCapital

variable {t : List Char}

theorem isFilter_eq_namesClass (hstar : '*' ∉ t) : isFilter t = namesClass t := by
  have hends : ['*', '.'].isPrefixOf t.reverse = false := by
    by_contra hends
    obtain ⟨r, hr⟩ := isPrefixOf_iff_prefix.mp (Bool.of_not_eq_false hends)
    apply hstar
    rw [← mem_reverse, ← hr]
    exact mem_cons_self
  rw [isFilter, hends, Bool.false_or, ← namesClass]
  by_cases hdot : '.' ∈ t
  · rw [contains_iff_mem.mpr hdot, Bool.true_and]
  · rw [namesClass, Text.splitLast?_eq_none hdot, Option.any_none, Bool.and_false]

theorem prepareChars_path (ht : ∀ c ∈ t, isPathChar c) (hslash : '/' ∈ t) :
    (namesClass t = false → prepareChars t = quoted t) ∧
      (namesClass t → ∃ p n, prepareChars t = classFilter p n) := by
  have hquote : '"' ∉ t := fun hmem => (isPathChar_iff.mp (ht _ hmem)).2.1 rfl
  have hstar : '*' ∉ t := fun hmem => (isPathChar_iff.mp (ht _ hmem)).2.2.1 rfl
  have hhead : t.head? ≠ some '"' := fun hhead => hquote (mem_of_mem_head? hhead)
  have hterm : prepareChars t = prepareTerm t := by
    rw [prepareChars, terms_run (ne_nil_of_mem hslash)
      (fun c hc => (isPathChar_iff.mp (ht c hc)).1) hhead, map_singleton]
    exact intercalate_singleton
  have hquoted := isQuoted_of_head? hhead
  rw [hterm, ← isFilter_eq_namesClass hstar]
  constructor
  · intro hfilter
    have hplain : isPlain t = false := by
      rw [isPlain, Bool.not_eq_false', any_eq_true]
      exact ⟨'/', hslash, by decide⟩
    have hsame : doubled t = t := doubled_eq_self hquote
    rcases prepareTerm_of_text hquoted hplain hfilter with htext | htext
    · exact htext
    · rw [htext, hsame]
  · intro hfilter
    rcases prepareTerm_of_isFilter hquoted hfilter with ⟨p, rfl, -⟩ | ⟨p, n, -, hprepared⟩
    · exact absurd (by simp) hstar
    · exact ⟨p, n, hprepared⟩

end Query

/-! ### What the table of assets makes of them -/

namespace FullText

theorem windows_go_ne_nil {done : List Token} (hdone : done ≠ []) (cs : List Char) :
    windows.go done cs ≠ [] := by
  induction cs generalizing done with
  | nil => exact mt reverse_eq_nil_iff.mp hdone
  | cons a cs ih =>
    match cs with
    | [] => exact mt reverse_eq_nil_iff.mp hdone
    | [_] => exact mt reverse_eq_nil_iff.mp hdone
    | _ :: _ :: _ => exact ih (cons_ne_nil _ _)

variable {cs : List Char}

theorem windows_ne_nil (hlong : 3 ≤ cs.length) : windows cs ≠ [] := by
  match cs, hlong with
  | _ :: _ :: _ :: _, _ => exact windows_go_ne_nil (cons_ne_nil _ _) _

theorem trigramTokens_ne_nil (hnull : ∀ c ∈ cs, c.toNat ≠ 0)
    (hlong : 3 ≤ cs.length) : trigramTokens cs ≠ [] := by
  have hall : cs.takeWhile (fun c => c.toNat != 0) = cs :=
    takeWhile_eq_self_iff.mpr fun c hc => by simpa using hnull c hc
  rw [trigramTokens, hall]
  apply windows_ne_nil
  rwa [length_map]

theorem parse_of_noColumn {scheme : Scheme} {query name : List Char} {rest : List Lexeme}
    {e : QueryError}
    (hlexemes : lexemes query = .mark '(' :: .text name :: .mark ':' :: rest)
    (hcolumn : scheme.column name [] = .error e) : scheme.parse query = .error e := by
  have hinner (fuel room : Nat) : scheme.expr (fuel + 1) (room + 1)
      (.text name :: .mark ':' :: rest) = .error e := by
    apply level_of_error
    apply level_of_error
    apply level_of_error
    show (scheme.columnFilter (room + 1) (.text name :: .mark ':' :: rest) >>= _) = _
    rw [Scheme.columnFilter, hcolumn]
    rfl
  have houter (fuel : Nat) : scheme.expr (fuel + 2) capacity
      (.mark '(' :: .text name :: .mark ':' :: rest) = .error e := by
    apply level_of_error
    apply level_of_error
    apply level_of_error
    show (scheme.expr (fuel + 1) 98 (.text name :: .mark ':' :: rest) >>= _) = _
    rw [hinner]
    rfl
  rw [Scheme.parse, hlexemes]
  show (scheme.expr (rest.length + 2 + 2) capacity _ >>= _) = _
  rw [houter]
  rfl

end FullText

theorem asksFor_quoted_path {t : List Char} (ht : ∀ c ∈ t, isPathChar c)
    (hlong : 3 ≤ t.length) {texts : List (List Char)} :
    assetScheme.asksFor (quoted t) (assetScheme.doc (t :: texts)) := by
  have hquote : '"' ∉ t := fun hmem => (isPathChar_iff.mp (ht _ hmem)).2.1 rfl
  have hnull : ∀ c ∈ t, c.toNat ≠ 0 := fun c hc => (isPathChar_iff.mp (ht c hc)).2.2.2
  have hlexemes : lexemes (quoted t) = [.text (quoted t), .stop] := by
    have hlex : FullText.lexFrom (quoted t ++ []) = _ :=
      FullText.lexFrom_quoted_of_not_mem hquote (by simp)
    rw [append_nil, FullText.lexFrom_nil] at hlex
    rw [FullText.lexemes_eq, hlex]
    unfold quoted
    simp only [forall_mem_cons, forall_mem_append]
    exact ⟨by decide, hnull, by decide, by simp⟩
  rw [FullText.Scheme.asksFor_of_parse (by simp [quoted]) (FullText.parse_text hlexemes),
    FullText.textQuery, FullText.accepts_groupOf_exactly_iff,
    FullText.unquote_quoted_of_not_mem hquote]
  exact ⟨FullText.trigramTokens_ne_nil hnull hlong, 0, _, rfl, rfl, infix_refl _⟩

theorem problem?_classFilter_assets (p n : List Char) :
    assetScheme.problem? (classFilter p n) = some (.noColumn "package".toList) := by
  have hsplit : classFilter p n = "(package:".toList ++ (quoted p ++
      (" AND ".toList ++ filterBack n)) := by
    rw [classFilter_eq, filterFront_eq, append_assoc]
  have hlexemes : ∃ rest, lexemes (classFilter p n) =
      .mark '(' :: .text "package".toList :: .mark ':' :: rest := by
    rw [hsplit, lexemes, takeWhile_append_of_pos (by decide)]
    exact ⟨_, lexFrom_packageColumn _⟩
  obtain ⟨rest, hlexemes⟩ := hlexemes
  apply FullText.Scheme.problem?_of_parse_error
  · rw [hsplit]
    simp
  · exact FullText.parse_of_noColumn hlexemes rfl

/-! ### The search -/

variable {t : AssetTable} {query : String} {a : Asset}

theorem AssetTable.find?_of_mem_search {found : List Asset} (hsearch : t.search query = .ok found)
    (ha : a ∈ found) : ∃ path, t.find? path = some a := by
  obtain ⟨hits, -, hfound⟩ := ok_of_bind hsearch
  cases hfound
  obtain ⟨e, -, he⟩ := mem_filterMap.mp ha
  obtain ⟨path, -, hpath⟩ := Option.bind_eq_some_iff.mp he
  exact ⟨path, hpath⟩

theorem AssetTable.Follows.mem_search {rowOf : String → Option Asset} {names : List String}
    (hfollows : t.Follows rowOf names) (ha : a ∈ t.assets.rows) (hasks : a.isAskedBy query) :
    ∃ found, t.search (prepare query) = .ok found ∧ a ∈ found ∧
      found.length ≤ names.length := by
  have hread := FullText.Scheme.problem?_eq_none_of_asksFor hasks
  obtain ⟨found, hsearch, hperm⟩ := hfollows.search_perm hread
  refine ⟨found, hsearch, ?_, ?_⟩
  · have hlisted : a.path ∈ found.map path := by
      rw [hperm.mem_iff, mem_filter]
      refine ⟨((hfollows.mem_rows_iff a).mp ha).1, ?_⟩
      rw [hfollows.find?_of_mem ha, Option.any_some]
      exact hasks
    obtain ⟨b, hb, hsame⟩ := mem_map.mp hlisted
    obtain ⟨path, hpath⟩ := AssetTable.find?_of_mem_search hsearch hb
    have hfound := hfollows.find?_of_mem (mem_of_find?_eq_some hpath)
    rw [hsame, hfollows.find?_of_mem ha] at hfound
    rw [Option.some.inj hfound]
    exact hb
  · have hlength := hperm.length_eq
    rw [length_map] at hlength
    rw [hlength]
    exact length_filter_le _ _

namespace Assets

variable {database archive : Path} {entries : List ArchiveEntry} {v : String} {h h' : Host}
  {told : List Report}

/-- After a completed run a search for the path of a file, without blanks, quotes and stars, shows
its asset exactly if no capital follows the last dot of the path. Otherwise the search fails at a
column that there is not. -/
theorem found_by_own_path_iff (harchive : h.Holds archive (.archive entries))
    (hrun : (index database archive (.str v)).outcome h = (.ok (told, .ok ()), h'))
    {path : String} (hpath : path ∈ fileNames entries) (hlong : 3 ≤ path.length)
    (hchars : ∀ c ∈ path.toList, isPathChar c = true) (hslash : '/' ∈ path.toList) :
    ((∃ found a,
        (searchIn database (.str path) (.ofNat entries.length)).outcome h' = (.ok found, h') ∧
        (infoIn database (.str path)).outcome h' = (.ok (some a), h') ∧ a ∈ found) ↔
      Cell.fits entries.length = true ∧ Query.namesClass path.toList = false) ∧
    (Cell.fits entries.length = true → Query.namesClass path.toList = true →
      (searchIn database (.str path) (.ofNat entries.length)).outcome h' =
        (.error (.store (.query (.noColumn "package".toList))), h')) := by
  obtain ⟨d, t, hstores, hreadable, htable, hfollows⟩ := stores_of_completed harchive hrun
  obtain ⟨a, ha, -, rfl⟩ := hfollows.exists_row hpath
  have hsome : 0 < entries.length := by
    obtain ⟨-, e, he, -⟩ := mem_fileNames_iff.mp hpath
    exact length_pos_of_mem he
  have hquery : Text.strip a.path ≠ "" := by
    rw [ne_eq, ← Query.terms_eq_nil_iff_strip, Query.terms_eq_nil_iff]
    intro hblank
    exact absurd (hblank '/' hslash) (by decide)
  obtain ⟨htext, hfilter⟩ := Query.prepareChars_path hchars hslash
  have houtcome : (searchIn database (.str a.path) (.ofNat entries.length)).outcome h' =
      (d.searchAssets (.str a.path) (.ofNat entries.length), h') := by
    rw [searchIn, queryDatabase_outcome hstores]
  have hinfo : (infoIn database (.str a.path)).outcome h' = (.ok (some a), h') := by
    rw [infoIn_outcome hstores hreadable htable, hfollows.find?_of_mem ha]
  have hsearch := Database.searchAssets_ofNat hreadable htable hquery hsome
  have hrefused (hnames : Query.namesClass a.path.toList = true) :
      t.search (Query.prepare a.path) = .error (.noColumn "package".toList) := by
    obtain ⟨p, n, hprepared⟩ := hfilter hnames
    have hproblem : assetScheme.problem? (Query.prepare a.path).toList =
        some (.noColumn "package".toList) := by
      rw [Query.prepare, String.toList_ofList, hprepared]
      exact problem?_classFilter_assets p n
    rw [AssetTable.search, FullText.search_of_problem hproblem]
    rfl
  rw [houtcome, hinfo]
  refine ⟨⟨?_, ?_⟩, ?_⟩
  · rintro ⟨found, b, hfound, -, -⟩
    have hfound := (Prod.mk.inj hfound).1
    rw [hsearch] at hfound
    split at hfound
    · next hfits =>
      refine ⟨hfits, ?_⟩
      by_contra hnames
      rw [hrefused (Bool.of_not_eq_false hnames)] at hfound
      cases hfound
    · cases hfound
  · rintro ⟨hfits, hnames⟩
    have hasks : a.isAskedBy a.path = true := by
      rw [Asset.isAskedBy, Query.prepare, String.toList_ofList, htext hnames]
      exact asksFor_quoted_path hchars hlong
    obtain ⟨all, hall, hmem, hfew⟩ := hfollows.mem_search ha hasks
    have hroom : all.length ≤ entries.length := by
      apply hfew.trans
      rw [fileNames, ← length_map ArchiveEntry.name]
      exact length_filter_le _ _
    refine ⟨all, a, ?_, rfl, hmem⟩
    rw [hsearch, if_pos hfits, hall]
    exact congrArg (fun rows => (Except.ok rows, h')) (take_of_length_le hroom)
  · intro hfits hnames
    rw [hsearch, if_pos hfits, hrefused hnames]
    rfl

/-- The image, which has two entries, is found by its path. -/
theorem found_by_own_path_moonWorkspace :
    ∃ told h', (index (.absolute ["w", "assets.db"]) (.absolute ["w", "assets.zip"])
        (.str "release")).outcome moonWorkspace = (.ok (told, .ok ()), h') ∧
      ∃ found a, (searchIn (.absolute ["w", "assets.db"]) (.str "Sky/Moon.png")
          (.ofNat 3)).outcome h' = (.ok found, h') ∧
        (infoIn (.absolute ["w", "assets.db"]) (.str "Sky/Moon.png")).outcome h' =
          (.ok (some a), h') ∧ a ∈ found := by
  obtain ⟨told, h', hrun⟩ := completes_moonWorkspace
  have hpath : "Sky/Moon.png" ∈ fileNames moonEntries := by decide
  have hfound := found_by_own_path_iff holds_moonWorkspace hrun hpath (by decide) (by decide)
    (by decide)
  exact ⟨told, h', hrun, hfound.1.mpr ⟨by decide, by decide⟩⟩

end Assets

end JarAtlas
