import JarAtlas.Explore.Details
import JarAtlas.Proofs.Explore.Search
import JarAtlas.Proofs.Store.Patterns
import Mathlib.Data.List.Perm.Basic

/-!
Lists of the classes and packages below a package. The names of packages are compared with a pattern
that is made from the name that was given, so that a list can also have packages that only look as
if they were below it. Pages are cut out of one sorted list. Since classes have different names, its
order is strict, and reading page after page gives every class once.
-/

open List Except

namespace JarAtlas

open Text Catalogue Json

open JarAtlas.Action

/-! ### Pages -/

/-- Pages read one after another from an offset on, each `size` rows further, up to the first empty
one. `asks` says which rows are answered at an offset. -/
inductive PagesFrom {α : Type} (asks : Nat → List α → Prop) (size : Nat) :
    Nat → List (List α) → Prop
  | done {offset : Nat} (hnone : asks offset []) : PagesFrom asks size offset []
  | page {offset : Nat} {rows : List α} {rest : List (List α)} (hrows : asks offset rows)
      (hsome : rows ≠ []) (hrest : PagesFrom asks size (offset + size) rest) :
      PagesFrom asks size offset (rows :: rest)

variable {α : Type} {p : String} {c : Catalogue} {below : Bool}

theorem exists_pagesFrom {asks : Nat → List α → Prop} {size : Nat} {all : List α} (hsize : 0 < size)
    (hasks : ∀ offset ≤ all.length + size, ∀ rows,
      asks offset rows ↔ rows = page size offset all) {offset : Nat}
    (hoffset : offset ≤ all.length + size) :
    ∃ pages, (∀ pages', PagesFrom asks size offset pages' ↔ pages' = pages) ∧
      pages.flatten = all.drop offset ∧ ∀ page ∈ pages.dropLast, page.length = size := by
  -- The induction is on what is left of the list.
  induction hn : all.length - offset using Nat.strong_induction_on generalizing offset with
  | _ n ih =>
    by_cases hend : all.length ≤ offset
    · have hnone : page size offset all = [] := by
        simp [page, drop_eq_nil_of_le hend]
      refine ⟨[], fun pages' => ⟨fun hread => ?_, fun h => h ▸ .done ?_⟩, ?_, by simp⟩
      · cases hread with
        | done => rfl
        | page hrows hsome => exact absurd (((hasks _ hoffset _).mp hrows).trans hnone) hsome
      · exact (hasks _ hoffset _).mpr hnone.symm
      · rw [drop_eq_nil_of_le hend, flatten_nil]
    · have hnext : offset + size ≤ all.length + size := by omega
      obtain ⟨pages, hread, hflat, hfull⟩ := ih (all.length - (offset + size)) (by omega) hnext rfl
      have hlength : (page size offset all).length = min size (all.length - offset) := by
        rw [page, length_take, length_drop]
      have hsome : page size offset all ≠ [] := ne_nil_of_length_pos (by omega)
      refine ⟨page size offset all :: pages, fun pages' => ⟨fun hall => ?_, ?_⟩, ?_, ?_⟩
      · cases hall with
        | done hnone => exact absurd ((hasks _ hoffset _).mp hnone).symm hsome
        | page hrows _ hrest => rw [(hasks _ hoffset _).mp hrows, (hread _).mp hrest]
      · rintro rfl
        exact .page ((hasks _ hoffset _).mpr rfl) hsome ((hread _).mpr rfl)
      · rw [flatten_cons, hflat, page, ← drop_drop, take_append_drop]
      · cases pages with
        | nil => simp
        | cons next pages =>
          have hmore : ¬ all.length ≤ offset + size := by
            intro hle
            have hnone : PagesFrom asks size (offset + size) [] :=
              .done ((hasks _ hnext _).mpr
                (by simp [page, drop_eq_nil_of_le hle]))
            cases (hread _).mp hnone
          rw [dropLast_cons_of_ne_nil (cons_ne_nil _ _)]
          exact forall_mem_cons.mpr ⟨by omega, hfull⟩

/-! ### Classes in order -/

theorem sortClasses_spec (rows : List ClassRow) :
    (sortClasses rows).Perm rows ∧
      (sortClasses rows).Pairwise fun a b => pairLe a.key b.key = true := by
  have htotal (a b : String) : a < b ∨ a = b ∨ b < a := by
    by_cases hlt : a < b
    · exact .inl hlt
    · by_cases hgt : b < a
      · exact .inr (.inr hgt)
      · exact .inr (.inl (String.le_antisymm (String.not_lt.mp hgt) (String.not_lt.mp hlt)))
  refine ⟨mergeSort_perm _ _, pairwise_mergeSort ?_ ?_ rows⟩
  · intro a b c hab hbc
    simp only [pairLe, Bool.or_eq_true, decide_eq_true_eq, Bool.and_eq_true, beq_iff_eq] at *
    rcases hab with hab | ⟨hab, hab'⟩
    · rcases hbc with hbc | ⟨hbc, -⟩
      · exact .inl (String.lt_trans hab hbc)
      · exact .inl (hbc ▸ hab)
    · rcases hbc with hbc | ⟨hbc, hbc'⟩
      · exact .inl (hab ▸ hbc)
      · exact .inr ⟨hab.trans hbc, String.le_trans hab' hbc'⟩
  · intro a b
    simp only [pairLe, Bool.or_eq_true, decide_eq_true_eq, Bool.and_eq_true, beq_iff_eq]
    rcases htotal a.key.1 b.key.1 with h | h | h
    · exact .inl (.inl h)
    · exact (String.le_total a.key.2 b.key.2).imp (fun hle => .inr ⟨h, hle⟩)
        fun hle => .inr ⟨h.symm, hle⟩
    · exact .inr (.inl h)

/-- The name of the package goes on after `p` and a dot. -/
def IsBelow (p package : String) : Prop :=
  (p ++ ".").toList <+: package.toList

/-- The package fits the pattern for what lies below `p`. -/
def LooksBelow (p package : String) : Prop :=
  Fits (comparedChars (belowPattern p)) (comparedChars package)

theorem like_belowPattern_iff {package : String} :
    like (belowPattern p) package ↔ LooksBelow p package :=
  likeChars_iff_fits _ _

/-! ### Hits -/

theorem eq_text_of_text? {cell : Cell} {s : String} (h : cell.text? = some s) : cell = .text s := by
  cases cell with
  | text _ => rw [Option.some.inj h]
  | _ => cases h

theorem Catalogue.shows_of_mem_hits {query : String} {found : List Hit}
    (hfound : Database.queryOutcome (c.hits query) = .ok found) {hit : Hit} (hhit : hit ∈ found) :
    c.Shows hit := by
  cases hhits : c.hits query with
  | error e => rw [hhits] at hfound; cases hfound
  | ok all =>
    rw [hhits] at hfound
    cases hfound
    obtain ⟨entries, -, hall⟩ := ok_of_bind hhits
    cases hall
    obtain ⟨e, -, hhit⟩ := mem_filterMap.mp hhit
    obtain ⟨row, hrow, rfl⟩ := Option.map_eq_some_iff.mp hhit
    obtain ⟨package, hpackage, hrow⟩ := Option.bind_eq_some_iff.mp hrow
    obtain ⟨name, hname, hrow⟩ := Option.bind_eq_some_iff.mp hrow
    have hnames := find?_some hrow
    rw [Bool.and_eq_true, beq_iff_eq, beq_iff_eq] at hnames
    obtain ⟨rfl, rfl⟩ := hnames
    exact ⟨row, mem_of_find?_eq_some hrow,
      ⟨eq_text_of_text? hpackage, eq_text_of_text? hname⟩, rfl⟩

theorem mem_of_mem_takeLimit {limit : Option Nat} {as : List α} {a : α}
    (h : a ∈ takeLimit limit as) : a ∈ as := by
  cases limit with
  | none => exact h
  | some n => exact mem_of_mem_take h

theorem hit_mem_of_mem_classHits {hits : List Hit} {found : ClassHit} (h : found ∈ classHits hits) :
    found.hit ∈ hits := by
  obtain ⟨hit, hhit, rfl⟩ := mem_map.mp h
  refine foldlRecOn (motive := fun done => done ⊆ hits) hits _ (nil_subset _) ?_ hhit
  intro done hdone hit hhit
  split
  · exact hdone
  · exact append_subset.mpr ⟨hdone, cons_subset.mpr ⟨hhit, nil_subset _⟩⟩

theorem Database.takeClasses_subset {limit : Json} {classes found : List ClassHit}
    (h : takeClasses limit classes = .ok found) : found ⊆ classes := by
  have hgo (rest done : List ClassHit) (hdone : done ⊆ classes) (hrest : rest ⊆ classes)
      (hgo : takeClasses.go limit done rest = .ok found) : found ⊆ classes := by
    induction rest generalizing done with
    | nil =>
      cases hgo
      exact fun _ hx => hdone (mem_reverse.mp hx)
    | cons hit rest ih =>
      obtain ⟨hhit, hrest⟩ := cons_subset.mp hrest
      have hmore : hit :: done ⊆ classes := cons_subset.mpr ⟨hhit, hdone⟩
      obtain ⟨reached, -, hgo⟩ := ok_of_bind hgo
      cases reached with
      | true =>
        cases hgo
        exact fun _ hx => hmore (mem_reverse.mp hx)
      | false => exact ih (hit :: done) hmore hrest hgo
  exact hgo classes [] (nil_subset _) (List.Subset.refl _) h

/-- The classes in a list for a package: none if its name is blank. -/
def Catalogue.listed (c : Catalogue) (package : String) (below : Bool) : List ClassRow :=
  if package = "" then [] else c.classesIn package below

theorem Catalogue.mem_listed {row : ClassRow} :
    row ∈ c.listed p below ↔ row ∈ c.classes.rows ∧ p ≠ "" ∧
      (row.package = p ∨ below ∧ LooksBelow p row.package) := by
  rw [listed]
  split
  · simp [*]
  · rw [classesIn, (sortClasses_spec _).1.mem_iff, mem_filter, Bool.or_eq_true, beq_iff_eq,
      Bool.and_eq_true, like_belowPattern_iff]
    simp [*]

theorem Catalogue.length_listed_le (c : Catalogue) (p : String) (below : Bool) :
    (c.listed p below).length ≤ c.classes.rows.length := by
  rw [listed]
  split
  · exact Nat.zero_le _
  · rw [classesIn, (sortClasses_spec _).1.length_eq]
    exact length_filter_le _ _

/-- Some package is compared with the overlong pattern for what is below `p`. -/
def Catalogue.comparesOverlong (c : Catalogue) (p : String) (below : Bool) : Bool :=
  isOverlong (belowPattern p) && (below && c.classes.rows.any fun row => row.package != p)

theorem Catalogue.comparesOverlong_iff :
    c.comparesOverlong p below ↔ isOverlong (belowPattern p) ∧ below ∧
      ∃ row ∈ c.classes.rows, row.package ≠ p := by
  simp [comparesOverlong]

theorem Catalogue.mem_packages {s : String} :
    s ∈ c.packages (some p) ↔ (∃ row ∈ c.classes.rows, row.package = s) ∧ LooksBelow p s := by
  rw [packages, (distinctTexts_spec _).2, mem_filter, mem_map, like_belowPattern_iff]

theorem looksBelow_of_isBelow {package : String} (hsolid : ∀ ch ∈ p.toList, ch.toNat ≠ 0)
    (h : IsBelow p package) : LooksBelow p package := by
  have hbegins (q : String) (hq : ∀ ch ∈ q.toList, ch.toNat ≠ 0)
      (hfirst : q.toList <+: package.toList) :
      Fits (comparedChars (q ++ "%")) (comparedChars package) := by
    obtain ⟨rest, hrest⟩ := hfirst
    have hkept : ∀ ch ∈ q.toList, (ch.toNat != 0) = true := fun ch hch => bne_iff_ne.mpr (hq ch hch)
    rw [comparedChars, comparedChars, ← hrest, String.toList_append,
      takeWhile_append_of_pos hkept, takeWhile_append_of_pos hkept]
    exact Fits.append_self (Fits.any_iff.mpr ⟨[], nil_suffix, .nil⟩) _
  rw [LooksBelow, belowPattern]
  split
  · refine hbegins p hsolid (List.IsPrefix.trans ?_ h)
    rw [String.toList_append]
    exact prefix_append _ _
  · refine hbegins (p ++ ".") ?_ h
    rw [String.toList_append]
    exact forall_mem_append.mpr ⟨hsolid, by decide⟩

namespace Database

variable {d : Database} {c : Catalogue}

section

variable (hreadable : d.isReadable = true) (hapi : d.api = some c)

include hreadable hapi

theorem classes_eq : d.catalogue "classes" = .ok c := by
  simp only [catalogue, part, hreadable, hapi]

theorem listClasses_eq (package : String) (below : Bool) {size offset : Nat} (hsize : 1 ≤ size)
    (hmax : size ≤ 500) (hoffset : offset ≤ 9223372036854775807) :
    d.listClasses (.str package) below (.int size) (.int offset) =
      if c.comparesOverlong (strip package) below then .error (.store .patternTooLong)
      else .ok (page size offset (c.listed (strip package) below)) := by
  have hstripped : (str package).stripped = .ok (strip package) := rfl
  by_cases hgiven : strip package = ""
  · have hshort : isOverlong (belowPattern "") = false := by decide
    simp [listClasses, hstripped, bind, Except.bind, hgiven, hshort, comparesOverlong,
      listed, page, pure, Except.pure]
  have hclamp : (clamp 1 500 size).toNat = size := by
    simp only [clamp]
    omega
  have hnonneg : (max 0 (offset : Int)).toNat = offset := by omega
  have hfits : Cell.fits (max 0 (offset : Int)) := by
    simp only [Cell.fits, Bool.and_eq_true, decide_eq_true_eq]
    omega
  simp only [listClasses, hstripped, bind, Except.bind, beq_eq_false_iff_ne.mpr hgiven,
    Bool.false_eq_true, if_false, toWhole, classes_eq hreadable hapi, hfits, Bool.not_true,
    guardPattern, hclamp, hnonneg, listed, hgiven, comparesOverlong]
  generalize (isOverlong (belowPattern (strip package)) && _) = fails
  cases fails <;> rfl

theorem packages_eq {package : String} (hgiven : package ≠ "") :
    d.packages (.str package) =
      if isOverlong (belowPattern (strip package)) && !c.classes.rows.isEmpty then
        .error (.store .patternTooLong)
      else .ok (c.packages (some (strip package))) := by
  have hstripped : (str package).stripped = .ok (strip package) := rfl
  have hisGiven : (str package).isGiven := by simpa [isGiven] using hgiven
  simp only [packages, hisGiven, if_true, hstripped, bind, Except.bind, classes_eq hreadable hapi,
    guardPattern]
  generalize (isOverlong (belowPattern (strip package)) && _) = fails
  cases fails <;> rfl

theorem shows_of_mem_hits {query : String} {limit : Json} {f : SearchFilter} {found : List Hit}
    (hfound : d.hits query limit f = .ok found) {hit : Hit} (hhit : hit ∈ found) :
    f.fitsPackage hit ∧ c.Shows hit := by
  have hnone (hfound : (.ok [] : Except Fault (List Hit)) = .ok found) : False := by
    cases hfound
    cases hhit
  unfold hits at hfound
  split at hfound
  · exact (hnone hfound).elim
  obtain ⟨c', hc', hfound⟩ := ok_of_bind hfound
  obtain rfl : c = c' := ok.inj ((catalogue_eq hreadable hapi).symm.trans hc')
  obtain ⟨limit, -, hfound⟩ := ok_of_bind hfound
  by_cases hzero : (limit == some 0) = true
  · rw [if_pos hzero] at hfound
    exact (hnone hfound).elim
  rw [if_neg hzero] at hfound
  obtain ⟨all, hall, hfound⟩ := ok_of_bind hfound
  obtain ⟨-, -, hfound⟩ := ok_of_bind hfound
  cases hfound
  obtain ⟨hkept, hfits⟩ := mem_filter.mp (mem_of_mem_takeLimit hhit)
  exact ⟨hfits, Catalogue.shows_of_mem_hits hall (mem_of_mem_filter hkept)⟩

theorem class_of_mem_search (hstrip : strip p = p) (hgiven : p ≠ "") {r : SearchRequest}
    (hr : r.package = .str p) {found : List Json} (hfound : d.search r = .ok found) {v : Json}
    (hv : v ∈ found) :
    ∃ row ∈ c.classes.rows, v.get? "package" = some (.str row.package) ∧
      v.get? "class_name" = some (.str row.name) ∧
      (row.package = p ∨ LooksBelow p row.package) := by
  have hclass {f : SearchFilter} (hf : r.filter = .ok f) {query : String} {limit : Json}
      {hits : List Hit} (hhits : d.hits query limit f = .ok hits) {hit : Hit} (hhit : hit ∈ hits) :
      ∃ row ∈ c.classes.rows, row.Owns hit.entry ∧
        (row.package = p ∨ LooksBelow p row.package) := by
    obtain ⟨hfits, row, hrow, howns, -⟩ := shows_of_mem_hits hreadable hapi hhits hhit
    obtain ⟨package, hpackage, hf⟩ := ok_of_bind hf
    obtain ⟨kind, -, hf⟩ := ok_of_bind hf
    cases hf
    have htext : (str p).givenText = .ok p := by
      simp only [givenText, isGiven, bne_iff_ne.mpr hgiven, if_true]
      rfl
    obtain rfl : p = package := ok.inj (htext.symm.trans (hr ▸ hpackage))
    have hnarrowed : (SearchFilter.ofTexts p kind).package = some p := by
      simp only [SearchFilter.ofTexts, hstrip, beq_eq_false_iff_ne.mpr hgiven, Bool.false_eq_true,
        if_false]
    rw [SearchFilter.fitsPackage, hnarrowed, Option.all_some, howns.1, Bool.or_eq_true,
      beq_iff_eq] at hfits
    exact ⟨row, hrow, howns, hfits.imp Cell.text.inj like_belowPattern_iff.mp⟩
  unfold search at hfound
  obtain ⟨query, -, hfound⟩ := ok_of_bind hfound
  split at hfound
  · cases hfound
    cases hv
  split at hfound
  · obtain ⟨limit, -, hfound⟩ := ok_of_bind hfound
    obtain ⟨f, hf, hfound⟩ := ok_of_bind hfound
    obtain ⟨hits, hhits, hfound⟩ := ok_of_bind hfound
    obtain ⟨classes, hclasses, hfound⟩ := ok_of_bind hfound
    cases hfound
    obtain ⟨found, hmem, rfl⟩ := mem_map.mp hv
    obtain ⟨row, hrow, ⟨hpackage, hname⟩, hbelow⟩ :=
      hclass hf hhits (hit_mem_of_mem_classHits (takeClasses_subset hclasses hmem))
    exact ⟨row, hrow, by rw [ClassHit.toJson, hpackage]; rfl, by rw [ClassHit.toJson, hname]; rfl,
      hbelow⟩
  · obtain ⟨f, hf, hfound⟩ := ok_of_bind hfound
    obtain ⟨hits, hhits, hfound⟩ := ok_of_bind hfound
    cases hfound
    obtain ⟨hit, hmem, rfl⟩ := mem_map.mp hv
    obtain ⟨row, hrow, ⟨hpackage, hname⟩, hbelow⟩ := hclass hf hhits hmem
    exact ⟨row, hrow, by rw [Hit.toJson, hpackage]; rfl, by rw [Hit.toJson, hname]; rfl, hbelow⟩

theorem listClasses_pages {package : String} (below : Bool)
    (hanswers : ¬ c.comparesOverlong (strip package) below)
    {size : Nat} (hsize : 1 ≤ size) (hmax : size ≤ 500)
    (hrows : c.classes.rows.length + 500 ≤ 9223372036854775807) :
    ∃ pages,
      (∀ pages', PagesFrom (fun offset rows =>
        d.listClasses (.str package) below (.int size) (.int offset) = .ok rows) size 0 pages' ↔
          pages' = pages) ∧
      pages.flatten = c.listed (strip package) below ∧
      ∀ page ∈ pages.dropLast, page.length = size := by
  have hlength := c.length_listed_le (strip package) below
  have hasks : ∀ offset ≤ (c.listed (strip package) below).length + size, ∀ rows,
      d.listClasses (.str package) below (.int size) (.int offset) = .ok rows ↔
        rows = page size offset (c.listed (strip package) below) := by
    intro offset hoffset rows
    rw [listClasses_eq hreadable hapi package below hsize hmax (by omega), if_neg hanswers]
    exact ⟨fun h => (ok.inj h).symm, fun h => h ▸ rfl⟩
  exact exists_pagesFrom hsize hasks (Nat.zero_le _)

variable (hstrip : strip p = p) (hgiven : p ≠ "")

include hstrip hgiven

theorem listClasses_exact_iff {size : Nat} (hsize : 1 ≤ size) (hmax : size ≤ 500)
    (hrows : c.classes.rows.length + 500 ≤ 9223372036854775807) :
    (∃ pages, PagesFrom (fun offset rows =>
        d.listClasses (.str p) true (.int size) (.int offset) = .ok rows) size 0 pages ∧
        ∀ row, row ∈ pages.flatten ↔
          row ∈ c.classes.rows ∧ (row.package = p ∨ IsBelow p row.package)) ↔
      (isOverlong (belowPattern p) → ∀ row ∈ c.classes.rows, row.package = p) ∧
        ∀ row ∈ c.classes.rows, row.package ≠ p →
          (LooksBelow p row.package ↔ IsBelow p row.package) := by
  have hanswers : ¬ c.comparesOverlong p true ↔
      (isOverlong (belowPattern p) → ∀ row ∈ c.classes.rows, row.package = p) := by
    simp [comparesOverlong_iff]
  have hfirst := listClasses_eq hreadable hapi p true hsize hmax (Nat.zero_le _)
  have hpages (hshort : ¬ c.comparesOverlong p true) :=
    listClasses_pages hreadable hapi true (by rwa [hstrip]) hsize hmax hrows
  simp only [hstrip] at hfirst hpages
  constructor
  · rintro ⟨pages, hread, hexact⟩
    -- Already the first page is an answer.
    have hshort : ¬ c.comparesOverlong p true := by
      intro hfails
      rw [if_pos hfails] at hfirst
      cases hread with
      | done hnone => cases hfirst.symm.trans hnone
      | page hsome => cases hfirst.symm.trans hsome
    obtain ⟨pages', hread', hflat, -⟩ := hpages hshort
    obtain rfl := (hread' pages).mp hread
    refine ⟨hanswers.mp hshort, fun row hrow hother => ?_⟩
    simpa [hflat, mem_listed, hgiven, hrow, hother] using hexact row
  · rintro ⟨hshort, hsame⟩
    obtain ⟨pages, hread, hflat, -⟩ := hpages (hanswers.mpr hshort)
    refine ⟨pages, (hread pages).mpr rfl, fun row => ?_⟩
    rw [hflat, mem_listed]
    refine and_congr_right fun hrow => ?_
    by_cases hother : row.package = p
    · simp [hgiven, hother]
    · simp [hgiven, hother, hsame row hrow hother]

theorem packages_exact_iff :
    (∃ names, d.packages (.str p) = .ok names ∧ names.Pairwise (· < ·) ∧
        ∀ s, s ∈ names ↔ (∃ row ∈ c.classes.rows, row.package = s) ∧ IsBelow p s) ↔
      (isOverlong (belowPattern p) → c.classes.rows = []) ∧
        ∀ row ∈ c.classes.rows, (LooksBelow p row.package ↔ IsBelow p row.package) := by
  have hall := packages_eq hreadable hapi hgiven
  rw [hstrip] at hall
  have hanswers : (isOverlong (belowPattern p) && !c.classes.rows.isEmpty) = false ↔
      (isOverlong (belowPattern p) → c.classes.rows = []) := by
    cases isOverlong (belowPattern p) <;> simp
  rw [← hanswers]
  cases hfails : isOverlong (belowPattern p) && !c.classes.rows.isEmpty with
  | true => simp [hall, hfails]
  | false =>
    rw [hfails, if_neg Bool.false_ne_true] at hall
    constructor
    · rintro ⟨names, hnames, -, hexact⟩
      obtain rfl := ok.inj (hall.symm.trans hnames)
      refine ⟨rfl, fun row hrow => ?_⟩
      have hmem := hexact row.package
      rw [mem_packages] at hmem
      simpa [and_congr_right_iff, show ∃ other ∈ c.classes.rows, other.package = row.package from
        ⟨row, hrow, rfl⟩] using hmem
    · rintro ⟨-, hsame⟩
      refine ⟨_, hall, (distinctTexts_spec _).1, fun s => ?_⟩
      rw [mem_packages]
      refine and_congr_right fun ⟨row, hrow, hs⟩ => ?_
      rw [← hs]
      exact hsame row hrow

end

/-- Lists of classes and packages below a package are right exactly when no package only looks as if
it lay there, and no pattern is too long. -/
theorem packageFilter_exact_iff (hreadable : d.isReadable = true) (hapi : d.api = some c)
    {p : String} (hstrip : Text.strip p = p) (hgiven : p ≠ "") {size : Nat} (hsize : 1 ≤ size)
    (hmax : size ≤ 500) (hrows : c.classes.rows.length + 500 ≤ 9223372036854775807) :
    ((∃ pages, PagesFrom (fun offset rows =>
        d.listClasses (.str p) true (.int size) (.int offset) = .ok rows) size 0 pages ∧
        ∀ row, row ∈ pages.flatten ↔
          row ∈ c.classes.rows ∧ (row.package = p ∨ IsBelow p row.package)) ↔
      (isOverlong (belowPattern p) = true → ∀ row ∈ c.classes.rows, row.package = p) ∧
        ∀ row ∈ c.classes.rows, row.package ≠ p →
          (LooksBelow p row.package ↔ IsBelow p row.package)) ∧
    ((∃ names, d.packages (.str p) = .ok names ∧ names.Pairwise (· < ·) ∧
        ∀ s, s ∈ names ↔ (∃ row ∈ c.classes.rows, row.package = s) ∧ IsBelow p s) ↔
      (isOverlong (belowPattern p) = true → c.classes.rows = []) ∧
        ∀ row ∈ c.classes.rows, (LooksBelow p row.package ↔ IsBelow p row.package)) ∧
    (∀ r : SearchRequest, r.package = .str p → ∀ found, d.search r = .ok found → ∀ v ∈ found,
      ∃ row ∈ c.classes.rows, v.get? "package" = some (.str row.package) ∧
        v.get? "class_name" = some (.str row.name) ∧
        (row.package = p ∨ LooksBelow p row.package)) ∧
    ((∀ ch ∈ p.toList, ch.toNat ≠ 0) → ∀ package, IsBelow p package → LooksBelow p package) := by
  exact ⟨listClasses_exact_iff hreadable hapi hstrip hgiven hsize hmax hrows,
    packages_exact_iff hreadable hapi hstrip hgiven,
    fun r hr found hfound v hv => class_of_mem_search hreadable hapi hstrip hgiven hr hfound hv,
    fun hsolid _ => looksBelow_of_isBelow hsolid⟩

end Database

def twinCatalogue : Catalogue where
  classes := ⟨[⟨1, "a_b.c", "A", "class", "A.java", none, none⟩,
    ⟨2, "axb.c", "B", "class", "B.java", none, none⟩], 2⟩

theorem packageFilter_twinCatalogue :
    (¬ ∃ pages, PagesFrom (fun offset rows =>
        Database.listClasses { api := some twinCatalogue } (.str "a_b") true (.int 500)
          (.int offset) = .ok rows) 500 0 pages ∧
        ∀ row, row ∈ pages.flatten ↔ row ∈ twinCatalogue.classes.rows ∧
          (row.package = "a_b" ∨ IsBelow "a_b" row.package)) ∧
    ¬ ∃ names, Database.packages { api := some twinCatalogue } (.str "a_b") = .ok names ∧
        names.Pairwise (· < ·) ∧
        ∀ s, s ∈ names ↔
          (∃ row ∈ twinCatalogue.classes.rows, row.package = s) ∧ IsBelow "a_b" s := by
  obtain ⟨hclasses, hpackages, -⟩ := Database.packageFilter_exact_iff (p := "a_b")
    (d := { api := some twinCatalogue }) rfl rfl (by decide +kernel) (by decide)
    (by decide : 1 ≤ 500) (by decide) (by decide)
  have hstray : ¬ (LooksBelow "a_b" "axb.c" ↔ IsBelow "a_b" "axb.c") := by
    rw [← like_belowPattern_iff, IsBelow]
    decide +kernel
  let row : ClassRow := ⟨2, "axb.c", "B", "class", "B.java", none, none⟩
  have hrow : row ∈ twinCatalogue.classes.rows := by decide
  exact ⟨fun hexact => hstray ((hclasses.mp hexact).2 row hrow (by decide)),
    fun hexact => hstray ((hpackages.mp hexact).2 row hrow)⟩

/-! ### Pages of a written catalogue -/

/-- A catalogue that was written: made empty, cleared, and added to by any writer. -/
inductive Catalogue.Made : Catalogue → Prop
  | empty : Made {}
  | clear {c : Catalogue} (hc : Made c) : Made c.clear
  | addClass {w w' : Writer} {new : NewClass} {id : Nat} (hw : Made w.catalogue)
      (hinsert : w.insertClass new = .ok (w', id)) : Made w'.catalogue
  | addMethod {w : Writer} (hw : Made w.catalogue) (row : MethodRow) :
      Made (w.insertMethod row).catalogue
  | addConstant {w : Writer} (hw : Made w.catalogue) (row : ConstantRow) :
      Made (w.insertConstant row).catalogue
  | addEntry {w : Writer} (hw : Made w.catalogue) (fields : EntryFields) :
      Made (w.insertEntry fields).catalogue

variable {c : Catalogue}

theorem Catalogue.Made.keys (hc : c.Made) : (c.classes.rows.map ClassRow.key).Nodup := by
  induction hc with
  | empty => exact nodup_nil
  | clear => exact nodup_nil
  | addClass _ hinsert ih => exact Writer.insertClass_keys ih hinsert
  | addMethod _ _ ih => exact ih
  | addConstant _ _ ih => exact ih
  | addEntry _ _ ih => exact ih

end JarAtlas
