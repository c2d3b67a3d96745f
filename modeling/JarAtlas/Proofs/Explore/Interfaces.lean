import JarAtlas.Proofs.Explore.Hierarchy
import JarAtlas.Proofs.Java.ParentNames

/-!
The interfaces of classes. The names after `implements` are kept as one text, which is split at its
commas when the hierarchy of the class is asked for. Nothing is trimmed there, so the blanks around
commas stay with the names, and the names are given as they were written exactly if there are none.
-/

open List

namespace JarAtlas

open Text Hierarchy

open JarAtlas.Action

namespace Java

/-! ### Lists of names -/

structure ListedName where
  before : List Char
  name : List Char
  after : List Char
  blank_before : ∀ c ∈ before, Text.isBlank c = true
  isDotted_name : IsDotted name
  not_keyword : name ≠ "implements".toList
  blank_after : ∀ c ∈ after, Text.isBlank c = true

namespace ListedName

variable (n : ListedName)

def text : List Char :=
  n.before ++ (n.name ++ n.after)

theorem isClauseChar_text : ∀ c ∈ n.text, isClauseChar c := by
  rw [text, forall_mem_append, forall_mem_append]
  exact ⟨fun c hc => isClauseChar_of_isBlank (n.blank_before c hc),
    n.isDotted_name.isClause.isClauseChar,
    fun c hc => isClauseChar_of_isBlank (n.blank_after c hc)⟩

theorem notMem_text {c : Char} (hblank : isBlank c = false)
    (hother : (isWord c || c == '.') = false) : c ∉ n.text := by
  simp only [text, mem_append, not_or]
  refine ⟨fun hc => ?_, fun hc => ?_, fun hc => ?_⟩
  · rw [n.blank_before c hc] at hblank
    cases hblank
  · rw [n.isDotted_name.2 c hc] at hother
    cases hother
  · rw [n.blank_after c hc] at hblank
    cases hblank

theorem text_eq_name_iff : n.text = n.name ↔ n.before = [] ∧ n.after = [] := by
  constructor
  · intro htext
    have hlength := congrArg length htext
    simp only [text, length_append] at hlength
    exact ⟨eq_nil_of_length_eq_zero (by omega), eq_nil_of_length_eq_zero (by omega)⟩
  · rintro ⟨hbefore, hafter⟩
    rw [text, hbefore, hafter, nil_append, append_nil]

theorem words_text : words n.text = [n.name] := by
  have hname : words n.name = [n.name] := n.isDotted_name.isType.words_eq
  rw [text, words_blank_append n.blank_before]
  by_cases hafter : n.after = []
  · rw [hafter, append_nil, hname]
  · have hwords := words_append_gap hafter n.blank_after n.name []
    rw [append_nil] at hwords
    rw [hwords, hname]
    rfl

theorem trim_text : trim n.text = n.name := by
  rw [text, trim, trimBy, dropWhile_append_of_pos n.blank_before]
  exact trimBy_append_gap n.isDotted_name.notBlank n.blank_after

end ListedName

def namesText : List ListedName → List Char
  | [] => []
  | [n] => n.text
  | n :: m :: items => n.text ++ ',' :: namesText (m :: items)

section ListText

variable {items : List ListedName}

theorem mem_namesText {c : Char} (hc : c ∈ namesText items) : c = ',' ∨ ∃ n ∈ items, c ∈ n.text := by
  fun_induction namesText items with
  | case1 => simp at hc
  | case2 n => exact .inr ⟨n, mem_singleton_self n, hc⟩
  | case3 n m items ih =>
    rcases mem_append.mp hc with hc | hc
    · exact .inr ⟨n, mem_cons_self, hc⟩
    · rcases mem_cons.mp hc with rfl | hc
      · exact .inl rfl
      · exact (ih hc).imp_right fun ⟨k, hk, hc⟩ => ⟨k, mem_cons_of_mem n hk, hc⟩

theorem splitAt_namesText (hne : items ≠ []) :
    splitAt ',' (namesText items) = items.map ListedName.text := by
  have hcomma (n : ListedName) : ',' ∉ n.text := n.notMem_text (by decide) (by decide)
  fun_induction namesText items with
  | case1 => exact absurd rfl hne
  | case2 n => exact splitAt_of_not_mem (hcomma n)
  | case3 n m items ih =>
    rw [splitAt_append_cons (hcomma n), ih (cons_ne_nil m items)]
    rfl

theorem keyword_notMem_words_namesText : "implements".toList ∉ words (namesText items) := by
  have hname (n : ListedName) : "implements".toList ∉ words n.text := by
    rw [n.words_text, mem_singleton]
    exact n.not_keyword.symm
  fun_induction namesText items with
  | case1 => decide
  | case2 n => exact hname n
  | case3 n m items ih =>
    intro hmem
    rcases mem_words_append_cons (by decide) hmem with hcomma | hmem | hmem
    · exact absurd hcomma (by decide)
    · exact hname n hmem
    · exact ih hmem

theorem namesText_last_solid (hlast : ∀ n ∈ items.getLast?, n.after = []) :
    ∀ c ∈ (namesText items).getLast?, isBlank c = false := by
  intro c hc
  fun_induction namesText items with
  | case1 => simp at hc
  | case2 n =>
    rw [ListedName.text, hlast n rfl, append_nil,
      getLast?_append_of_ne_nil _ n.isDotted_name.1] at hc
    exact n.isDotted_name.notBlank c (mem_of_getLast? hc)
  | case3 n m items ih =>
    rw [getLast?_append_of_ne_nil _ (cons_ne_nil _ _), getLast?_cons] at hc
    cases hmore : (namesText (m :: items)).getLast? with
    | none =>
      obtain rfl : ',' = c := by simpa [hmore] using hc
      decide
    | some d =>
      obtain rfl : d = c := by simpa [hmore] using hc
      exact ih hlast hmore

theorem exists_namesText_eq (hne : items ≠ []) (hfirst : ∀ n ∈ items.head?, n.before = []) :
    ∃ name rest, IsDotted name ∧ namesText items = name ++ rest := by
  fun_cases namesText items with
  | case1 => exact absurd rfl hne
  | case2 n =>
    refine ⟨n.name, n.after, n.isDotted_name, ?_⟩
    rw [ListedName.text, hfirst n rfl, nil_append]
  | case3 n m items =>
    refine ⟨n.name, n.after ++ ',' :: namesText (m :: items), n.isDotted_name, ?_⟩
    rw [ListedName.text, hfirst n rfl, nil_append, append_assoc]

end ListText

/-- A list of names. Blanks at its ends do not belong to it. -/
structure NameList where
  items : List ListedName
  ne_nil : items ≠ []
  first_before : ∀ n ∈ items.head?, n.before = []
  last_after : ∀ n ∈ items.getLast?, n.after = []

namespace NameList

variable (l : NameList)

def text : List Char :=
  namesText l.items

def names : List String :=
  l.items.map fun n => String.ofList n.name

/-- No blanks are around the commas. -/
def IsTight : Prop :=
  ∀ n ∈ l.items, n.before = [] ∧ n.after = []

theorem isClauseChar_text : ∀ c ∈ l.text, isClauseChar c := by
  intro c hc
  rcases mem_namesText hc with rfl | ⟨n, -, hc⟩
  · decide
  · exact n.isClauseChar_text c hc

theorem less_notMem_text : '<' ∉ l.text := by
  intro hc
  rcases mem_namesText hc with hcomma | ⟨n, -, hc⟩
  · exact absurd hcomma (by decide)
  · exact n.notMem_text (by decide) (by decide) hc

theorem text_ne_nil : l.text ≠ [] := by
  obtain ⟨name, rest, hname, htext⟩ := exists_namesText_eq l.ne_nil l.first_before
  rw [text, htext]
  exact append_ne_nil_of_left_ne_nil hname.1 rest

theorem isSolid_text (rest : List Char) : IsSolid (l.text ++ rest) := by
  obtain ⟨name, more, hname, htext⟩ := exists_namesText_eq l.ne_nil l.first_before
  rw [text, htext, append_assoc]
  exact hname.isType.isSolid _

theorem last_solid : ∀ c ∈ l.text.getLast?, isBlank c = false :=
  namesText_last_solid l.last_after

theorem clauseNames_text : clauseNames l.text = l.text := by
  have hhead := l.isSolid_text []
  rw [append_nil] at hhead
  have htrim : trim l.text = l.text := trimBy_eq_self hhead l.last_solid
  rw [clauseNames, htrim, dropTypeArguments_eq_self l.less_notMem_text, htrim]

theorem split_text :
    (split (String.ofList l.text) ',' = l.names ↔ l.IsTight) ∧
      (split (String.ofList l.text) ',').map strip = l.names := by
  have hpieces : split (String.ofList l.text) ',' = l.items.map fun n => String.ofList n.text := by
    rw [split, String.toList_ofList, text, splitAt_namesText l.ne_nil, map_map]
    rfl
  rw [hpieces]
  constructor
  · rw [names, map_inj_left]
    refine forall₂_congr fun n _ => ?_
    rw [String.ofList_inj, n.text_eq_name_iff]
  · rw [map_map]
    refine map_congr_left fun n _ => ?_
    rw [Function.comp_apply, strip, String.toList_ofList, n.trim_text]

end NameList

/-! ### Headers with interfaces -/

/-- An `extends` clause: the blanks around its keyword and what comes after it. The keyword of the
next clause is no word of it. -/
structure ExtendsClause where
  gap : List Char
  gap' : List Char
  text : List Char
  blank_gap : gap ≠ [] ∧ ∀ c ∈ gap, Text.isBlank c = true
  blank_gap' : gap' ≠ [] ∧ ∀ c ∈ gap', Text.isBlank c = true
  ne_nil : text ≠ []
  clause_text : ∀ c ∈ text, isClauseChar c = true
  head_solid : IsSolid text
  last_solid : ∀ c ∈ text.getLast?, Text.isBlank c = false
  keyword_free : "implements".toList ∉ Text.words text

/-- The header of a type with interfaces: the words up to its name, an `extends` clause, if there is
one, the blanks around `implements`, names, and blanks before the brace. -/
structure ImplementsHeader where
  modifier : Option TypeModifier
  kind : Kind
  name : List Char
  front : List Char
  parent : Option ExtendsClause
  gap : List Char
  gap' : List Char
  interfaces : NameList
  braceGap : List Char
  isName_name : IsName name
  isSolid_front : IsSolid front
  words_front : Text.words front =
    "public".toList :: (modifier.toList.map TypeModifier.word ++ [kind.word.toList, name])
  blank_gap : ∀ c ∈ gap, Text.isBlank c = true
  blank_gap' : gap' ≠ [] ∧ ∀ c ∈ gap', Text.isBlank c = true
  blank_braceGap : ∀ c ∈ braceGap, Text.isBlank c = true
  /-- A keyword needs no blank before it after a bracket. -/
  bracket_of_nil : gap = [] → ∃ p ∈ parent, p.text.getLast? = some '>'

private theorem implementsAndBrace?_brace {gap : List Char}
    (hgap : ∀ c ∈ gap, isBlank c) (post : List Char) :
    implementsAndBrace? (gap ++ '\x7b' :: post) = some (none, post) := by
  have hsolid : IsSolid ('\x7b' :: post) := isSolid_cons (by decide) post
  have hnone : clause? "implements".toList afterBrace? (gap ++ '\x7b' :: post) = none := by
    rw [clause?, Option.bind_eq_bind]
    by_cases hne : gap = []
    · rw [hne, nil_append, afterBlanks?_eq_none hsolid]
      rfl
    · have hother : after? "implements".toList ('\x7b' :: post) = none := by simp [after?]
      rw [afterBlanks?_gap hne hgap hsolid, Option.bind_some, hother]
      rfl
  rw [implementsAndBrace?, hnone, afterBrace?_gap hgap]
  rfl

private theorem suffix_append_cases {u a b : List Char} (hu : u <:+ a ++ b) :
    u <:+ b ∨ ∃ v, v ≠ [] ∧ v <:+ a ∧ u = v ++ b := by
  obtain ⟨w, hw⟩ := hu
  rcases append_eq_append_iff.mp hw with ⟨v, ha, rfl⟩ | ⟨v, -, hb⟩
  · by_cases hv : v = []
    · rw [hv]
      exact .inl (suffix_refl b)
    · exact .inr ⟨v, hv, ⟨w, ha.symm⟩, rfl⟩
  · exact .inl ⟨v, hb.symm⟩

namespace ImplementsHeader

variable (t : ImplementsHeader) {gap before post : List Char} {d : TypeDecl}

/-- The text from the list of interfaces to the brace, and what follows. -/
def ending (post : List Char) : List Char :=
  t.interfaces.text ++ (t.braceGap ++ '\x7b' :: post)

def followedBy (post : List Char) : List Char :=
  t.front ++ (t.parent.elim [] (fun p => p.gap ++ ("extends".toList ++ (p.gap' ++ p.text))) ++
    (t.gap ++ ("implements".toList ++ (t.gap' ++ t.ending post))))

def IsApart : Prop :=
  t.gap ≠ []

theorem implementsAndBrace?_clause {gap' : List Char} (hne : gap ≠ []) (hgap : ∀ c ∈ gap, isBlank c)
    (hne' : gap' ≠ []) (hgap' : ∀ c ∈ gap', isBlank c) (post : List Char) :
    implementsAndBrace? (gap ++ ("implements".toList ++ (gap' ++ t.ending post))) =
      some (some t.interfaces.text, post) := by
  have hread : shortestClause? afterBrace? [] (t.ending post) = some (t.interfaces.text, post) := by
    refine shortestClause?_append t.interfaces.text_ne_nil t.interfaces.isClauseChar_text
      (afterBrace?_gap t.blank_braceGap post) (fun u hu hne => ?_) []
    refine afterBrace?_eq_none (fun hmem => ?_) ⟨u.getLast hne, getLast_mem hne, ?_⟩ _
    · exact absurd (t.interfaces.isClauseChar_text _ (hu.mem hmem)) (by decide)
    · apply t.interfaces.last_solid
      rw [hu.getLast hne, getLast?_eq_getLast_of_ne_nil]
      rfl
  have hsolid : IsSolid (t.ending post) := t.interfaces.isSolid_text _
  rw [implementsAndBrace?, clause?_gap (by decide : IsType "implements".toList) hne hgap hne' hgap'
    hsolid hread]

theorem front_keyword {keyword : List Char} (hne : gap ≠ []) (hgap : ∀ c ∈ gap, isBlank c)
    (hkeyword : IsType keyword) :
    IsSolid (t.front ++ (gap ++ keyword)) ∧ words (t.front ++ (gap ++ keyword)) =
      "public".toList :: (t.modifier.toList.map TypeModifier.word ++
        [t.kind.word.toList, t.name, keyword]) := by
  have hfront : t.front ≠ [] := by
    intro hnil
    have hwords := t.words_front
    rw [hnil] at hwords
    cases hwords
  refine ⟨IsSolid.append_of_ne_nil t.isSolid_front hfront _, ?_⟩
  rw [words_append_gap hne hgap, t.words_front, hkeyword.words_eq]
  simp only [cons_append, append_assoc, nil_append]

theorem header_of_isApart (happart : t.IsApart) (post : List Char) :
    header (t.followedBy post) = some (⟨t.kind, t.name, t.parent.map ExtendsClause.text,
      some t.interfaces.text⟩, post) := by
  have hkeyword : IsType "implements".toList := by decide
  cases hparent : t.parent with
  | none =>
    obtain ⟨hsolid, hwords⟩ := t.front_keyword happart t.blank_gap hkeyword
    obtain ⟨gap₁, gap₂, hne₁, hgap₁, hne₂, hgap₂, hheader⟩ := exists_header_eq hsolid hwords
      t.isName_name t.blank_gap'.1 t.blank_gap'.2 (t.ending post)
    have hnone : clause? "extends".toList implementsAndBrace?
        (gap₁ ++ ("implements".toList ++ (gap₂ ++ t.ending post))) = none := by
      have hother (rest : List Char) :
          after? "extends".toList ("implements".toList ++ rest) = none := by
        simp [after?]
      rw [clause?, Option.bind_eq_bind, afterBlanks?_gap hne₁ hgap₁ (hkeyword.isSolid _),
        Option.bind_some, hother]
      rfl
    have hread := t.implementsAndBrace?_clause hne₁ hgap₁ hne₂ hgap₂ post
    simp only [clausesAndBrace?, hnone, hread, Option.map_some, Option.bind_some] at hheader
    rw [Option.map_none, ← hheader, followedBy, hparent, Option.elim_none]
    simp only [append_assoc, nil_append]
  | some p =>
    obtain ⟨hsolid, hwords⟩ :=
      t.front_keyword p.blank_gap.1 p.blank_gap.2 (by decide : IsType "extends".toList)
    have hnext := t.implementsAndBrace?_clause happart t.blank_gap t.blank_gap'.1 t.blank_gap'.2 post
    have hafter : ∀ c ∈ (t.gap ++ ("implements".toList ++ (t.gap' ++ t.ending post))).head?,
        isWord c = false := by
      intro c hc
      rw [head?_append_of_ne_nil _ happart] at hc
      exact isWord_eq_false_of_isBlank (t.blank_gap c (mem_of_mem_head? hc))
    have hread := shortestClause?_append p.ne_nil p.clause_text hnext (fun u hu hne =>
      implementsAndBrace?_eq_none_of_words p.clause_text p.last_solid p.keyword_free (.inr hafter)
        hu hne) []
    have hheader := header_eq_of_extends hsolid hwords t.isName_name p.blank_gap'.1 p.blank_gap'.2
      (IsSolid.append_of_ne_nil p.head_solid p.ne_nil _) hread
    rw [reverse_nil, nil_append] at hheader
    rw [Option.map_some, ← hheader, followedBy, hparent, Option.elim_some]
    simp only [append_assoc]

theorem header_of_not_isApart (hglued : ¬ t.IsApart) (post : List Char) :
    ∃ text, header (t.followedBy post) = some (⟨t.kind, t.name, some text, none⟩, post) := by
  have hgap : t.gap = [] := not_not.mp hglued
  obtain ⟨p, hparent, hbracket⟩ := t.bracket_of_nil hgap
  obtain ⟨hsolid, hwords⟩ :=
    t.front_keyword p.blank_gap.1 p.blank_gap.2 (by decide : IsType "extends".toList)
  have hafter : ∀ c ∈ (t.braceGap ++ '\x7b' :: post).head?, isWord c = false := by
    intro c hc
    cases hbrace : t.braceGap with
    | nil =>
      obtain rfl : '\x7b' = c := by simpa [hbrace] using hc
      decide
    | cons d gap =>
      obtain rfl : d = c := by simpa [hbrace] using hc
      exact isWord_eq_false_of_isBlank (t.blank_braceGap d (by simp [hbrace]))
  have hnames : ∀ c ∈ t.gap' ++ t.interfaces.text, isClauseChar c :=
    forall_mem_append.mpr ⟨fun c hc => isClauseChar_of_isBlank (t.blank_gap'.2 c hc),
      t.interfaces.isClauseChar_text⟩
  have hchars : ∀ c ∈ p.text ++ ("implements".toList ++ (t.gap' ++ t.interfaces.text)),
      isClauseChar c := by
    rw [forall_mem_append, forall_mem_append]
    exact ⟨p.clause_text, by decide, hnames⟩
  have hearlier : ∀ u, u <:+ p.text ++ ("implements".toList ++ (t.gap' ++ t.interfaces.text)) →
      u ≠ [] → implementsAndBrace? (u ++ (t.braceGap ++ '\x7b' :: post)) = none := by
    intro u hu hne
    rcases suffix_append_cases hu with hu | ⟨v, hv, hpart, rfl⟩
    · rcases suffix_append_cases hu with hu | ⟨v, hv, hpart, rfl⟩
      · refine implementsAndBrace?_eq_none_of_words hnames ?_ ?_ (.inr hafter) hu hne
        · rw [getLast?_append_of_ne_nil _ t.interfaces.text_ne_nil]
          exact t.interfaces.last_solid
        · rw [words_blank_append t.blank_gap'.2]
          exact keyword_notMem_words_namesText
      · have hletters : IsDotted "implements".toList := by decide
        rw [append_assoc]
        exact implementsAndBrace?_eq_none ⟨hv, fun c hc => hletters.2 c (hpart.mem hc)⟩ _
    · rw [append_assoc]
      refine implementsAndBrace?_eq_none_of_words p.clause_text p.last_solid p.keyword_free
        (.inl ?_) hpart hv
      rw [hbracket]
      simp only [Option.mem_some_iff, forall_eq']
      decide
  have hread := shortestClause?_append (append_ne_nil_of_left_ne_nil p.ne_nil _) hchars
    (implementsAndBrace?_brace t.blank_braceGap post) hearlier []
  have hheader := header_eq_of_extends hsolid hwords t.isName_name p.blank_gap'.1 p.blank_gap'.2
    (IsSolid.append_of_ne_nil (IsSolid.append_of_ne_nil p.head_solid p.ne_nil _)
      (append_ne_nil_of_left_ne_nil p.ne_nil _) _) hread
  refine ⟨_, Eq.trans ?_ hheader⟩
  rw [followedBy, ending, hgap, hparent, Option.elim_some]
  simp only [append_assoc, nil_append]

theorem of_reportedAt (hd : ReportedAt (before ++ t.followedBy post) before.length d) :
    d.kind = t.kind ∧ d.name = String.ofList t.name ∧ (t.parent = none → d.parent = none) ∧
      (t.IsApart → d.interfaces = some (String.ofList t.interfaces.text)) ∧
      (¬ t.IsApart → d.interfaces = none) := by
  obtain ⟨package, m, -, hm, hstart, rfl⟩ := hd
  obtain ⟨rest, hread⟩ := recognise_of_mem_scanFrom endsWith_header hm (by omega)
  by_cases happart : t.IsApart
  · rw [t.header_of_isApart happart] at hread
    obtain ⟨hvalue, -⟩ := Prod.mk.inj (Option.some.inj hread)
    dsimp only [TypeDecl.ofMatch]
    rw [← hvalue]
    refine ⟨rfl, rfl, fun hnone => by rw [hnone]; rfl, fun _ => ?_, fun h => absurd happart h⟩
    rw [Option.map_some, t.interfaces.clauseNames_text]
  · obtain ⟨text, hheader⟩ := t.header_of_not_isApart happart post
    rw [hheader] at hread
    obtain ⟨hvalue, -⟩ := Prod.mk.inj (Option.some.inj hread)
    dsimp only [TypeDecl.ofMatch]
    rw [← hvalue]
    refine ⟨rfl, rfl, fun hnone => ?_, fun h => absurd h happart, fun _ => rfl⟩
    obtain ⟨p, hparent, -⟩ := t.bracket_of_nil (not_not.mp happart)
    rw [hnone] at hparent
    cases hparent

theorem exists_reportedAt {package : List Char}
    (hpackage : packageOf? (before ++ t.followedBy post) = some package) :
    (∃ d, ReportedAt (before ++ t.followedBy post) before.length d) ↔
      ∀ other ∈ scan header (before ++ t.followedBy post), ¬ other.Crosses before.length := by
  have hread : ∃ hd, header (t.followedBy post) = some (hd, post) := by
    by_cases happart : t.IsApart
    · exact ⟨_, t.header_of_isApart happart post⟩
    · obtain ⟨text, hheader⟩ := t.header_of_not_isApart happart post
      exact ⟨_, hheader⟩
  obtain ⟨hd, hread⟩ := hread
  have hplace : (∃ m ∈ scan header (before ++ t.followedBy post), m.start = 0 + before.length) ↔ _ :=
    exists_mem_scanFrom_iff endsWith_header before
  rw [Nat.zero_add, hread] at hplace
  constructor
  · rintro ⟨d, hd⟩
    exact (hplace.mp ((exists_reportedAt_iff hpackage).mp
      ⟨d, mem_extractChars_of_reportedAt hd, hd⟩)).2
  · intro hfree
    obtain ⟨d, -, hd⟩ := (exists_reportedAt_iff hpackage).mpr (hplace.mpr ⟨rfl, hfree⟩)
    exact ⟨d, hd⟩

theorem interfaceNames_classRow (hd : ReportedAt (before ++ t.followedBy post) before.length d)
    (path : String) (id : Nat) :
    (interfaceNames (d.classRow path id) = t.interfaces.names ↔
      t.IsApart ∧ t.interfaces.IsTight) ∧
    (t.IsApart → (interfaceNames (d.classRow path id)).map strip =
      t.interfaces.names) := by
  obtain ⟨-, -, -, happart, hglued⟩ := t.of_reportedAt hd
  have hrow : (d.classRow path id).interfaces = d.interfaces := rfl
  by_cases h : t.IsApart
  · have hne : (String.ofList t.interfaces.text != "") = true := by
      rw [bne_iff_ne]
      intro hempty
      exact t.interfaces.text_ne_nil (String.ofList_eq_empty_iff.mp hempty)
    rw [interfaceNames, hrow, happart h, Option.filter_some, if_pos hne]
    obtain ⟨hiff, hstrip⟩ := t.interfaces.split_text
    exact ⟨hiff.trans (and_iff_right h).symm, fun _ => hstrip⟩
  · rw [interfaceNames, hrow, hglued h, Option.filter_none]
    refine ⟨iff_of_false (fun hnames => ?_) fun hboth => h hboth.1, fun hboth => absurd hboth h⟩
    exact t.interfaces.ne_nil (map_eq_nil_iff.mp hnames.symm)

end ImplementsHeader

end Java

/-! ### Classes -/

namespace Writer

variable {w : Writer} {types : List (String × Java.TypeDecl)}

theorem mem_of_addTypes {w' : Writer} (hw : w.Sound) (hadd : w.addTypes types = .ok w')
    {row : ClassRow} (hrow : row ∈ w.catalogue.classes.rows) : row ∈ w'.catalogue.classes.rows :=
  addTypes_induct (P := fun _ w => row ∈ w.catalogue.classes.rows) hw hadd hrow
    fun _ _ _ _ _ _ hrow _ hputs => hputs.mem hrow

theorem exists_classRow_of_find? (hadd : start.addTypes types = .ok w) {path : String}
    {d : Java.TypeDecl} (hfind : types.find? (fun other => other.2.key == d.key) = some (path, d)) :
    ∃ id, d.classRow path id ∈ w.catalogue.classes.rows := by
  obtain ⟨-, before, after, rfl, hbefore⟩ := find?_eq_some_iff_append.mp hfind
  obtain ⟨w₁, hfirst, hw₁⟩ := addTypes_ok start_sound before
  obtain ⟨w₂, id, hnext, hadds, hcases⟩ := addType_cases hw₁ path d
  rw [addTypes_append, hfirst] at hadd
  have hrest : w₂.addTypes after = .ok w := by
    rw [← hadd]
    simp only [addTypes, foldlM_cons, hnext, bind, Except.bind]
  rcases hcases with ⟨-, hid, hclasses⟩ | ⟨⟨old, hold, hkey⟩, -, -⟩
  · refine ⟨w₁.catalogue.classes.lastId + 1, mem_of_addTypes hadds.sound hrest ?_⟩
    rw [hclasses]
    exact mem_append_right _ (mem_singleton_self _)
  · obtain ⟨other, hother, hfrom⟩ := addTypes_origin hfirst old hold
    have hsame : other.2.key = d.key := by
      rw [← hkey, hfrom]
      rfl
    simpa [hsame] using hbefore other hother

end Writer

theorem Hierarchy.get?_answer (row : ClassRow) (tree : List Ancestor) :
    (answer row tree).get? "interfaces" = some (.arr ((interfaceNames row).map .str)) := by
  simp [answer, Json.get?, Json.lookup]

theorem Hierarchy.ancestorsFrom_of_parent_eq_none {d : Database} {row : ClassRow}
    (hnone : row.parent = none) (fuel : Nat) (seen : List (String × String)) :
    ancestorsFrom d fuel seen row = .ok [] := by
  cases fuel with
  | zero => rfl
  | succ fuel => rw [ancestorsFrom, hnone, Option.filter_none]

/-- After a successful run, the hierarchy of a class has the names of its interfaces in order
exactly if no blanks are around the commas and one is before the keyword. -/
theorem interfaces_eq_names_iff {root dir database : Path} {version : String} {h h' : Host}
    {stats : Nat × Nat × Nat}
    (hindex : (indexVersion root version).outcome h = (.ok (.ok stats), h'))
    (hdir : (Layout.sources root version).outcome h = (.ok dir, h))
    (hdatabase : (Layout.catalogue root version).outcome h = (.ok database, h))
    (hplace : (Layout.catalogue root version).outcome h' = (.ok database, h'))
    (t : Java.ImplementsHeader) {f : SourceFile} {before post package : List Char}
    (hf : f ∈ SourceFile.below h dir) (htext : f.text = before ++ t.followedBy post)
    (hpackage : Java.packageOf? f.text = some package) :
    ((∃ d, Java.ReportedAt f.text before.length d) ↔
      ∀ other ∈ Java.scan Java.header f.text, ¬ other.Crosses before.length) ∧
    (Java.SetOff before →
      ∀ other ∈ Java.scan Java.header f.text, ¬ other.Crosses before.length) ∧
    ∀ d, Java.ReportedAt f.text before.length d →
      d.kind = t.kind ∧ d.name = String.ofList t.name ∧
      (f.path, d) ∈ SourceFile.types (SourceFile.below h dir) ∧
      ((SourceFile.types (SourceFile.below h dir)).find? (fun other => other.2.key == d.key) =
          some (f.path, d) →
        (t.parent = none → ∃ answer,
          (classHierarchy root version d.package d.name).outcome h' = (.ok answer, h')) ∧
        ∀ answer h'', (classHierarchy root version d.package d.name).outcome h' =
            (.ok answer, h'') →
          ∃ names, answer.get? "interfaces" = some (.arr (names.map .str)) ∧
            (names = t.interfaces.names ↔ t.IsApart ∧ t.interfaces.IsTight) ∧
            (t.IsApart → names.map Text.strip = t.interfaces.names)) := by
  obtain ⟨writer, stored, hdone⟩ := indexed_of_indexVersion hindex hdir hdatabase
  rw [htext] at hpackage ⊢
  refine ⟨t.exists_reportedAt hpackage, Java.not_crosses_of_setOff, fun d hd => ?_⟩
  obtain ⟨hkind, hname, hparent, -, -⟩ := t.of_reportedAt hd
  have hextract : d ∈ Java.extract (String.ofList f.text) := by
    rw [Java.extract, String.toList_ofList, htext]
    exact Java.mem_extractChars_of_reportedAt hd
  have hmem : (f.path, d) ∈ SourceFile.types (SourceFile.below h dir) :=
    mem_flatMap.mpr ⟨f, hf, mem_map.mpr ⟨d, hextract, rfl⟩⟩
  refine ⟨hkind, hname, hmem, fun hfind => ?_⟩
  obtain ⟨id, hrow⟩ := Writer.exists_classRow_of_find? hdone.adds hfind
  have houtcome := classHierarchy_outcome hdone.indexes.1 hplace hdone.stores hrow
  have hpackage : (d.classRow f.path id).package = d.package := rfl
  have hsame : (d.classRow f.path id).name = d.name := rfl
  rw [hpackage, hsame] at houtcome
  rw [houtcome]
  constructor
  · intro hnone
    have hfield : (d.classRow f.path id).parent = d.parent := rfl
    refine ⟨Hierarchy.answer (d.classRow f.path id) [], ?_⟩
    rw [Hierarchy.ancestorsFrom_of_parent_eq_none (hfield.trans (hparent hnone))]
    rfl
  · intro answer h'' hanswer
    obtain ⟨hmap, -⟩ := Prod.mk.inj hanswer
    generalize Hierarchy.ancestorsFrom _ _ _ _ = walk at hmap
    cases walk with
    | error e => cases hmap
    | ok tree =>
      obtain rfl := Except.ok.inj hmap
      exact ⟨_, Hierarchy.get?_answer _ _, t.interfaceNames_classRow hd f.path id⟩

theorem isBlank_nothing : ∀ c ∈ ([] : List Char), isBlank c := by
  decide

theorem isBlank_space : ∀ c ∈ [' '], isBlank c := by
  decide

def spacedNames : Java.NameList where
  items := [
    ⟨[], ['I'], [], isBlank_nothing, by decide, by decide, isBlank_nothing⟩,
    ⟨[' '], ['J'], [], isBlank_space, by decide, by decide, isBlank_nothing⟩]
  ne_nil := List.cons_ne_nil _ _
  first_before := by simp
  last_after := by simp

def spacedHeader : Java.ImplementsHeader where
  modifier := none
  kind := .classType
  name := ['A']
  front := "public class A".toList
  parent := none
  gap := [' ']
  gap' := [' ']
  interfaces := spacedNames
  braceGap := [' ']
  isName_name := by decide
  isSolid_front := Java.isSolid_cons (by decide) _
  words_front := by decide
  blank_gap := isBlank_space
  blank_gap' := by decide
  blank_braceGap := isBlank_space
  bracket_of_nil := by simp

def spacedWorkspace : Host where
  files := ⟨[
    (["w"], .directory), (["w", "workspace"], .directory),
    (["w", "workspace", "sources"], .directory),
    (["w", "workspace", "sources", "release"], .directory),
    (["w", "workspace", "sources", "release", "A.java"],
      .file (.ofText "package p;\npublic class A implements I, J \x7b\n\x7d\n") 5)]⟩

theorem indexVersion_spacedWorkspace :
    ∃ h', (indexVersion (.absolute ["w"]) "release").outcome spacedWorkspace =
      (.ok (.ok (1, 0, 0)), h') := by
  have hstats : ((indexVersion (.absolute ["w"]) "release").outcome spacedWorkspace).1 =
      .ok (.ok (1, 0, 0)) := by
    simp only [indexVersion, Console.withProgress_release]
    decide +kernel
  exact ⟨_, Prod.ext hstats rfl⟩

def spacedType : Java.TypeDecl where
  package := "p"
  name := "A"
  kind := .classType
  methods := []
  parent := none
  interfaces := some "I, J"
  constants := []

theorem types_spacedWorkspace :
    SourceFile.types (SourceFile.below spacedWorkspace
      (.absolute ["w", "workspace", "sources", "release"])) = [("A.java", spacedType)] := by
  decide +kernel

/-- The second interface there is given with the space before it. -/
theorem interfaces_spacedWorkspace :
    ∃ h' answer names,
      (indexVersion (.absolute ["w"]) "release").outcome spacedWorkspace =
        (.ok (.ok (1, 0, 0)), h') ∧
      (classHierarchy (.absolute ["w"]) "release" "p" "A").outcome h' = (.ok answer, h') ∧
      answer.get? "interfaces" = some (.arr (names.map .str)) ∧
      names ≠ ["I", "J"] ∧ names.map Text.strip = ["I", "J"] := by
  obtain ⟨h', hindex⟩ := indexVersion_spacedWorkspace
  have hdir : (Layout.sources (.absolute ["w"]) "release").outcome spacedWorkspace =
      (.ok (.absolute ["w", "workspace", "sources", "release"]), spacedWorkspace) := rfl
  have hdatabase : (Layout.catalogue (.absolute ["w"]) "release").outcome spacedWorkspace =
      (.ok smallDatabase, spacedWorkspace) := rfl
  have hplace := Layout.catalogue_of_indexed hindex hdatabase fun s hs => by cases hs
  have hfiles : ("A.java", "package p;\n".toList ++ spacedHeader.followedBy "\n\x7d\n".toList) ∈
      (SourceFile.below spacedWorkspace (.absolute ["w", "workspace", "sources", "release"])).map
        fun f => (f.path, f.text) := by
    decide +kernel
  obtain ⟨f, hf, hsame⟩ := mem_map.mp hfiles
  obtain ⟨hpath, htext⟩ := Prod.mk.inj hsame
  have hpackage : Java.packageOf? f.text = some ['p'] := by
    rw [htext]
    decide +kernel
  have hsetOff : Java.SetOff "package p;\n".toList := by
    have hlast : ("package p;\n".toList.reverse.dropWhile Text.isBlank).head? = some ';' := rfl
    rw [Java.SetOff, hlast]
    simp only [Option.mem_some_iff, forall_eq']
    decide
  obtain ⟨hfound, hfree, hall⟩ :=
    interfaces_eq_names_iff hindex hdir hdatabase hplace spacedHeader hf htext hpackage
  obtain ⟨d, hd⟩ := hfound.mpr (hfree hsetOff)
  obtain ⟨-, -, hmem, hfirst⟩ := hall d hd
  rw [types_spacedWorkspace, hpath] at hmem hfirst
  obtain rfl : d = spacedType := (Prod.mk.inj (mem_singleton.mp hmem)).2
  obtain ⟨hanswered, hinterfaces⟩ := hfirst (by decide +kernel)
  obtain ⟨answer, hanswer⟩ := hanswered rfl
  obtain ⟨names, hnames, hiff, hstrip⟩ := hinterfaces answer h' hanswer
  have hwritten : spacedNames.names = ["I", "J"] := by decide +kernel
  refine ⟨h', answer, names, hindex, hanswer, hnames, fun hsame => ?_, ?_⟩
  · have htight := (hiff.mp (hsame.trans hwritten.symm)).2
    exact absurd (htight _ (mem_cons_of_mem _ mem_cons_self)).1 (cons_ne_nil _ _)
  · rw [hstrip (cons_ne_nil _ _)]
    exact hwritten

end JarAtlas
