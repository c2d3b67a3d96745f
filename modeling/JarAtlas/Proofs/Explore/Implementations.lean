import JarAtlas.Proofs.Explore.Listing

/-!
Classes that extend a class or implement an interface. The stored lists of names are compared as
texts with a pattern around the name that was given, so that a list also counts if a name in it only
looks as if the given one were part of it. What is found is exactly right if there is no such list.
-/

open List

namespace JarAtlas

open Text

variable {target text : String}

/-- A name in the list, which commas divide, has `target` as the last of its parts. -/
def HasName (target text : String) : Prop :=
  ∃ name ∈ (split text ',').map strip, (split name '.').getLast? = some target

/-- Some stretch of the text reads as `target`, in which an underscore stands for any character and
a letter for both of its cases. -/
def LooksNamed (target text : String) : Prop :=
  ∃ stretch, stretch <:+: text.toList ∧ Forall₂ CharFits target.toList stretch

theorem infix_of_mem_splitAt {sep : Char} {cs piece : List Char} (hpiece : piece ∈ splitAt sep cs) :
    piece <:+: cs := by
  induction hn : cs.length using Nat.strong_induction_on generalizing cs with
  | _ n ih =>
    by_cases hmem : sep ∈ cs
    · obtain ⟨a, rest, rfl, ha⟩ := eq_append_cons_of_mem hmem
      rw [length_append, length_cons] at hn
      rw [splitAt_append_cons ha] at hpiece
      rcases mem_cons.mp hpiece with rfl | hpiece
      · exact (prefix_append _ _).isInfix
      · have hrest := ih rest.length (by omega) hpiece rfl
        exact hrest.trans ((suffix_cons sep rest).trans (suffix_append a _)).isInfix
    · rw [splitAt_of_not_mem hmem, mem_singleton] at hpiece
      rw [hpiece]

theorem infix_of_mem_split {sep : Char} {s piece : String} (hpiece : piece ∈ split s sep) :
    piece.toList <:+: s.toList := by
  obtain ⟨chars, hchars, rfl⟩ := mem_map.mp hpiece
  rw [String.toList_ofList]
  exact infix_of_mem_splitAt hchars

theorem infix_strip (s : String) : (strip s).toList <:+: s.toList := by
  have hend := (dropWhile_suffix isBlank (l := (s.toList.dropWhile isBlank).reverse)).reverse
  rw [reverse_reverse] at hend
  rw [strip, String.toList_ofList]
  exact hend.isInfix.trans (dropWhile_suffix _).isInfix

theorem HasName.looksNamed (hname : HasName target text) : LooksNamed target text := by
  obtain ⟨name, hname, hlast⟩ := hname
  obtain ⟨piece, hpiece, rfl⟩ := mem_map.mp hname
  refine ⟨target.toList, ?_, forall₂_same.mpr fun _ _ => .inr rfl⟩
  exact ((infix_of_mem_split (mem_of_getLast? hlast)).trans (infix_strip piece)).trans
    (infix_of_mem_split hpiece)

theorem like_containingPattern_iff (htarget : ∀ ch ∈ target.toList, isWord ch)
    (htext : ∀ ch ∈ text.toList, ch.toNat ≠ 0) :
    like (containingPattern target) text ↔ LooksNamed target text := by
  have hall {cs : List Char} (hcs : ∀ ch ∈ cs, ch.toNat ≠ 0) : cs.takeWhile (·.toNat != 0) = cs :=
    takeWhile_eq_self_iff.mpr fun ch hch => bne_iff_ne.mpr (hcs ch hch)
  have hchars : (containingPattern target).toList = '%' :: (target.toList ++ ['%']) := by
    simp [containingPattern]
  have hsolid : ∀ ch ∈ '%' :: (target.toList ++ ['%']), ch.toNat ≠ 0 := by
    refine forall_mem_cons.mpr ⟨by decide, forall_mem_append.mpr ⟨fun ch hch hzero => ?_, by decide⟩⟩
    obtain rfl : ch = Char.ofNat 0 := Char.toNat_inj.mp hzero
    exact absurd (htarget _ hch) (by decide)
  have hpercent : '%' ∉ target.toList := fun hmem => absurd (htarget _ hmem) (by decide)
  rw [like, likeChars_iff_fits, comparedChars, comparedChars, hchars, hall hsolid, hall htext,
    Fits.any_iff]
  constructor
  · rintro ⟨rest, hrest, hfits⟩
    obtain ⟨taken, after, rfl, htaken, -⟩ := (Fits.stretch_iff hpercent).mp hfits
    exact ⟨taken, (prefix_append _ _).isInfix.trans hrest.isInfix, htaken⟩
  · rintro ⟨taken, ⟨before, after, hinfix⟩, htaken⟩
    refine ⟨taken ++ after, ⟨before, by rw [← hinfix, append_assoc]⟩, ?_⟩
    exact (Fits.stretch_iff hpercent).mpr
      ⟨taken, after, rfl, htaken, Fits.any_iff.mpr ⟨[], nil_suffix, .nil⟩⟩

/-- The text of the parent and that of the interfaces. -/
def ClassRow.above (row : ClassRow) : List String :=
  row.parent.toList ++ row.interfaces.toList

/-- The texts of parents and interfaces are names, commas and spaces. -/
def Catalogue.ListsNames (c : Catalogue) : Prop :=
  ∀ row ∈ c.classes.rows, ∀ text ∈ row.above, ∀ ch ∈ text.toList, isWord ch ∨ ch ∈ ['.', ',', ' ']

variable {d : Database} {c : Catalogue} {n : Nat}

theorem Catalogue.mem_implementations (hnames : c.ListsNames)
    (htarget : ∀ ch ∈ target.toList, isWord ch) {row : ClassRow} :
    row ∈ c.implementations target ↔
      row ∈ c.classes.rows ∧ ∃ text ∈ row.above, LooksNamed target text := by
  rw [implementations, (sortClasses_spec _).1.mem_iff, mem_filter]
  refine and_congr_right fun hrow => ?_
  have hlike {text : String} (htext : text ∈ row.above) :
      like (containingPattern target) text ↔ LooksNamed target text := by
    refine like_containingPattern_iff htarget fun ch hch hzero => ?_
    obtain rfl : ch = Char.ofNat 0 := Char.toNat_inj.mp hzero
    exact absurd (hnames row hrow text htext _ hch) (by decide)
  have hlist {text : String} :
      text ∈ row.above ↔ row.parent = some text ∨ row.interfaces = some text := by
    simp [ClassRow.above]
  simp only [likeSome, Bool.or_eq_true, Option.any_eq_true, ← exists_or, ← or_and_right, ← hlist]
  exact exists_congr fun text => and_congr_right hlike

namespace Database

theorem implementations_eq (hreadable : d.isReadable) (hapi : d.api = some c) (target : String)
    (hn : c.classes.rows.length ≤ n) (hmax : n ≤ 9223372036854775807) :
    d.implementations (.str target) (.int n) =
      if isOverlong (containingPattern target) && !c.classes.rows.isEmpty then
        .error (.store .patternTooLong)
      else .ok (c.implementations target) := by
  have hfits : Cell.fits n := by
    simp only [Cell.fits, Bool.and_eq_true, decide_eq_true_eq]
    omega
  have hall : takeLimit (some n) (c.implementations target) = c.implementations target := by
    apply take_of_length_le
    rw [Catalogue.implementations, (sortClasses_spec _).1.length_eq]
    exact (length_filter_le _ _).trans hn
  have hcompared : (some n != some 0 && !c.classes.rows.isEmpty) = !c.classes.rows.isEmpty := by
    cases hempty : c.classes.rows with
    | nil => simp
    | cons row rows =>
      rw [hempty, length_cons] at hn
      simp
      omega
  have hdisplay : (Json.str target).display = target := rfl
  have hlimit : rowLimit 3 (.int n) = .ok (some n) := by
    rw [rowLimit_int, if_pos hfits, if_neg (by omega), Int.toNat_natCast]
  simp only [implementations, classes_eq hreadable hapi, hlimit, hdisplay, bind, Except.bind,
    guardPattern, hcompared, hall]
  generalize (isOverlong (containingPattern target) && _) = fails
  cases fails <;> rfl

/-- With room for all classes, those found are exactly those above which a name has `target` as its
last part, in order, if and only if no other text looks as if it had. -/
theorem implementations_exact_iff (hreadable : d.isReadable) (hapi : d.api = some c)
    (hnames : c.ListsNames) (htarget : ∀ ch ∈ target.toList, isWord ch)
    (hn : c.classes.rows.length ≤ n) (hmax : n ≤ 9223372036854775807) :
    (∃ found, d.implementations (.str target) (.int n) = .ok found ∧
        found.Pairwise (fun a b => pairLe a.key b.key) ∧
        ∀ row, row ∈ found ↔ row ∈ c.classes.rows ∧ ∃ text ∈ row.above, HasName target text) ↔
      (isOverlong (containingPattern target) → c.classes.rows = []) ∧
        ∀ row ∈ c.classes.rows, (∃ text ∈ row.above, LooksNamed target text) →
          ∃ text ∈ row.above, HasName target text := by
  rw [implementations_eq hreadable hapi target hn hmax]
  constructor
  · rintro ⟨found, hfound, -, hexact⟩
    split at hfound
    · cases hfound
    · next hanswers =>
      obtain rfl := Except.ok.inj hfound
      refine ⟨fun hlong => by simpa [hlong] using hanswers, fun row hrow hlooks => ?_⟩
      exact ((hexact row).mp ((c.mem_implementations hnames htarget).mpr ⟨hrow, hlooks⟩)).2
  · rintro ⟨hshort, hexact⟩
    refine ⟨c.implementations target, if_neg fun hfails => ?_, (sortClasses_spec _).2,
      fun row => ?_⟩
    · rw [Bool.and_eq_true] at hfails
      simp [hshort hfails.1] at hfails
    · rw [c.mem_implementations hnames htarget]
      refine and_congr_right fun hrow => ⟨hexact row hrow, fun ⟨text, htext, hname⟩ => ?_⟩
      exact ⟨text, htext, hname.looksNamed⟩

end Database

/-- A class whose parent only has a name that begins like another one. -/
def nearCatalogue : Catalogue where
  classes := ⟨[⟨1, "a", "B", "class", "B.java", some "FooBar", none⟩], 1⟩

theorem implementations_nearCatalogue :
    ¬ ∃ found, Database.implementations { api := some nearCatalogue } (.str "Foo") (.int 1) =
        .ok found ∧
        found.Pairwise (fun a b => pairLe a.key b.key) ∧
        ∀ row, row ∈ found ↔
          row ∈ nearCatalogue.classes.rows ∧ ∃ text ∈ row.above, HasName "Foo" text := by
  have hnames : nearCatalogue.ListsNames := by
    unfold Catalogue.ListsNames
    decide
  have hiff := Database.implementations_exact_iff (d := { api := some nearCatalogue }) (n := 1) rfl
    rfl hnames (by decide : ∀ ch ∈ "Foo".toList, isWord ch) (by decide) (by decide)
  have hother : ∀ row ∈ nearCatalogue.classes.rows, ¬ ∃ text ∈ row.above, HasName "Foo" text := by
    unfold HasName
    decide +kernel
  have hrow : _ ∈ nearCatalogue.classes.rows := mem_singleton_self _
  refine fun hexact => hother _ hrow ((hiff.mp hexact).2 _ hrow ⟨"FooBar", by decide, ?_⟩)
  exact ⟨"Foo".toList, ⟨[], "Bar".toList, rfl⟩, forall₂_same.mpr fun _ _ => .inr rfl⟩

end JarAtlas
