import JarAtlas.Proofs.Query.Stability

/-!
Names as queries. A plain name asks for its words. A qualified name is prepared as the filter for
one class, and this filter asks for the class in its package. Where the filter is prepared once
more, it is refused at the first dot of the package, or its own words are asked for.
-/

open List

namespace JarAtlas

open FullText.Scheme FullText Query Text

/-! ### Plain names -/

namespace Java

variable {c : Char}

theorem isBareChar_of_isWord (hc : isWord c) : isBareChar c := by
  unfold isWord at hc
  dsimp only at hc
  split at hc
  · rcases Bool.or_eq_true_iff.mp hc with hletter | hline
    · simp [isBareChar, hletter]
    · simp [isBareChar, hline]
  · next hlarge => simp [isBareChar, Nat.le_of_not_lt hlarge]

theorem ne_of_isWord {d : Char} (hc : isWord c) (hd : isWord d = false) : c ≠ d := by
  rintro rfl
  rw [hc] at hd
  exact nomatch hd

theorem startsWord_of_isWord (hc : isWord c) :
    isQueryBlank c = false ∧ isMark c = false ∧ (c == '"') = false := by
  refine ⟨?_, ?_, beq_eq_false_iff_ne.mpr (ne_of_isWord hc (by decide))⟩
  · simp only [isQueryBlank, Bool.or_eq_false_iff, beq_eq_false_iff_ne]
    exact ⟨⟨⟨ne_of_isWord hc (by decide), ne_of_isWord hc (by decide)⟩,
      ne_of_isWord hc (by decide)⟩, ne_of_isWord hc (by decide)⟩
  · have hmarks : ∀ d ∈ "()\x7b\x7d:,+*-^".toList, isWord d = false := by decide
    unfold isMark
    rw [contains_eq_any_beq, any_eq_false]
    intro d hd
    simpa using ne_of_isWord hc (hmarks d hd)

namespace IsDotted

variable {cs : List Char}

theorem not_mem_of_isWord (hcs : IsDotted cs) {d : Char} (hd : isWord d = false)
    (hdot : d ≠ '.') : d ∉ cs := by
  intro hmem
  rcases Bool.or_eq_true_iff.mp (hcs.2 d hmem) with hword | hsame
  · exact ne_of_isWord hword hd rfl
  · exact hdot (beq_iff_eq.mp hsame)

theorem toNat_ne_zero (hcs : IsDotted cs) : ∀ c ∈ cs, c.toNat ≠ 0 := by
  intro c hc hzero
  have hnull : c = Char.ofNat 0 := by rw [← hzero, Char.ofNat_toNat]
  rw [hnull] at hc
  exact hcs.not_mem_of_isWord (by decide) (by decide) hc

theorem quote_not_mem (hcs : IsDotted cs) : '"' ∉ cs :=
  hcs.not_mem_of_isWord (by decide) (by decide)

end IsDotted

namespace IsName

variable {cs : List Char}

theorem toNat_ne_zero (hcs : IsName cs) : ∀ c ∈ cs, c.toNat ≠ 0 := by
  have hdotted : IsDotted cs := ⟨hcs.1, fun c hc => by rw [hcs.2 c hc, Bool.true_or]⟩
  exact hdotted.toNat_ne_zero

theorem not_mem_of_isWord (hcs : IsName cs) {d : Char} (hd : isWord d = false) : d ∉ cs :=
  fun hmem => ne_of_isWord (hcs.2 d hmem) hd rfl

theorem head?_ne_quote (hcs : IsName cs) : cs.head? ≠ some '"' :=
  fun hhead => hcs.not_mem_of_isWord (by decide) (mem_of_mem_head? hhead)

theorem isPlain (hcs : IsName cs) : Query.isPlain cs := by
  simp only [Query.isPlain, Bool.not_eq_true', any_eq_false, Bool.or_eq_true, beq_iff_eq, not_or]
  intro c hc
  exact ⟨⟨⟨ne_of_isWord (hcs.2 c hc) (by decide), ne_of_isWord (hcs.2 c hc) (by decide)⟩,
    ne_of_isWord (hcs.2 c hc) (by decide)⟩, ne_of_isWord (hcs.2 c hc) (by decide)⟩

theorem prepareChars_eq (hcs : IsName cs) : prepareChars cs = cs := by
  have hterms : terms cs = [cs] :=
    terms_run hcs.1 (fun c hc => isBlank_eq_false_of_isWord (hcs.2 c hc))
      hcs.head?_ne_quote
  rw [prepareChars, hterms, map_singleton, prepareTerm_of_isPlain hcs.isPlain]
  exact intercalate_singleton

theorem lexFrom_append (hcs : IsName cs) {rest : List Char}
    (hend : ∀ d ∈ rest.head?, isBareChar d = false) :
    lexFrom (cs ++ rest) = wordLexeme cs :: lexFrom rest := by
  cases cs with
  | nil => exact absurd rfl hcs.1
  | cons c cs =>
    obtain ⟨hblank, hmark, hquote⟩ := startsWord_of_isWord (hcs.2 c mem_cons_self)
    exact lexFrom_word hblank hmark hquote
      (fun d hd => isBareChar_of_isWord (hcs.2 d hd)) hend

end IsName

end Java

theorem asksFor_name {name : List Char} (hname : Java.IsName name)
    (hoperator : name ∉ operators) :
    entryScheme.problem? name = none ∧ ∀ doc, entryScheme.asksFor name doc ↔
      Mentions doc none (wordTokens name) := by
  have hlexemes : lexemes name = [.text name, .stop] := by
    have hlex : lexFrom (name ++ []) =
        wordLexeme name :: lexFrom [] := hname.lexFrom_append (by simp)
    rw [append_nil, wordLexeme_eq hoperator, lexFrom_nil] at hlex
    rw [lexemes_eq hname.toNat_ne_zero, hlex]
  have hstar : name.head? ≠ some '*' :=
    fun hhead => hname.not_mem_of_isWord (by decide) (mem_of_mem_head? hhead)
  have hparse : entryScheme.parse name = .ok (textQuery entryScheme name) := parse_text hlexemes
  refine ⟨problem?_of_parse hstar hparse, fun doc => ?_⟩
  rw [asksFor_of_parse hstar hparse, textQuery,
    accepts_groupOf_exactly_iff, unquote_of_head? hname.head?_ne_quote]
  rfl

/-! ### Dotted names as parts of queries -/

namespace Java.IsDotted

variable {cs : List Char}

theorem isName (hcs : IsDotted cs) (hdot : '.' ∉ cs) : IsName cs := by
  refine ⟨hcs.1, fun c hc => ?_⟩
  rcases Bool.or_eq_true_iff.mp (hcs.2 c hc) with hword | hsame
  · exact hword
  · rw [beq_iff_eq.mp hsame] at hc
    exact absurd hc hdot

/-- Outside quotes nothing can be read from the first dot on. -/
theorem lexFrom_append (hcs : IsDotted cs) (hdot : '.' ∈ cs) (rest : List Char) :
    ∃ word, (word = [] ∨ ∃ w, word = [wordLexeme w]) ∧
      lexFrom (cs ++ rest) = word ++ [.broken (.unexpected ['.'])] := by
  obtain ⟨w, after, rfl, hw⟩ := eq_append_cons_of_mem hdot
  have hbroken : lexFrom ('.' :: (after ++ rest)) = [.broken (.unexpected ['.'])] :=
    lexFrom_broken (by decide) (by decide) (by decide) (by decide) _
  rw [append_assoc, cons_append]
  by_cases hempty : w = []
  · refine ⟨[], .inl rfl, ?_⟩
    rw [hempty]
    exact hbroken
  · have hname : IsName w := isName ⟨hempty, fun c hc => hcs.2 c (mem_append_left _ hc)⟩ hw
    refine ⟨[wordLexeme w], .inr ⟨w, rfl⟩, ?_⟩
    rw [hname.lexFrom_append (by simp; decide), hbroken]
    rfl

end Java.IsDotted

theorem lexFrom_and (rest : List Char) :
    lexFrom (" AND ".toList ++ rest) = .andWord :: lexFrom rest := by
  have hname : Java.IsName "AND".toList := by decide
  calc lexFrom (" AND ".toList ++ rest)
      = lexFrom ("AND".toList ++ ' ' :: rest) := lexFrom_blank (by decide) _
    _ = wordLexeme "AND".toList :: lexFrom (' ' :: rest) := hname.lexFrom_append (by simp; decide)
    _ = .andWord :: lexFrom rest := by rw [lexFrom_blank (by decide)]; rfl

theorem lexFrom_column {name : List Char} (hname : Java.IsName name)
    (hoperator : name ∉ operators) (rest : List Char) :
    lexFrom (name ++ ':' :: rest) = .text name :: .mark ':' :: lexFrom rest := by
  rw [hname.lexFrom_append (by simp; decide), wordLexeme_eq hoperator,
    lexFrom_mark (by decide) (by decide)]

theorem lexFrom_packageColumn (rest : List Char) :
    lexFrom ("(package:".toList ++ rest) =
      .mark '(' :: .text "package".toList :: .mark ':' :: lexFrom rest := by
  have hopen : lexFrom ("(package:".toList ++ rest) =
      .mark '(' :: lexFrom ("package".toList ++ ':' :: rest) :=
    lexFrom_mark (by decide) (by decide) _
  rw [hopen, lexFrom_column (by decide) (by decide)]

/-! ### The filter for a class -/

section Filter

variable {p n : List Char}

section

variable (hp : Java.IsDotted p) (hn : Java.IsName n)

include hp hn

theorem toNat_ne_zero_filter :
    (∀ c ∈ filterFront p, c.toNat ≠ 0) ∧ ∀ c ∈ filterBack n, c.toNat ≠ 0 := by
  unfold filterFront filterBack
  simp only [forall_mem_append]
  exact ⟨⟨⟨by decide, hp.toNat_ne_zero⟩, by decide⟩, ⟨by decide, hn.toNat_ne_zero⟩, by decide⟩

theorem toNat_ne_zero_classFilter : ∀ c ∈ classFilter p n, c.toNat ≠ 0 := by
  obtain ⟨hfront, hback⟩ := toNat_ne_zero_filter hp hn
  rw [classFilter_eq]
  simp only [forall_mem_append]
  exact ⟨hfront, by decide, hback⟩

theorem lexFrom_classFilter :
    lexFrom (classFilter p n) = [.mark '(', .text "package".toList, .mark ':', .text (quoted p),
      .andWord, .text "class_name".toList, .mark ':', .text (quoted (n ++ ['*'])), .mark ')',
      .stop] := by
  have hstar : '"' ∉ n ++ ['*'] := by
    simpa using hn.not_mem_of_isWord (d := '"') (by decide)
  rw [classFilter_eq, filterFront_eq, filterBack_eq, append_assoc, lexFrom_packageColumn,
    lexFrom_quoted_of_not_mem hp.quote_not_mem (by simp), lexFrom_and,
    lexFrom_column (by decide) (by decide), lexFrom_quoted_of_not_mem hstar (by simp),
    lexFrom_mark (by decide) (by decide), lexFrom_nil]

theorem asksFor_classFilter :
    entryScheme.problem? (classFilter p n) = none ∧
      ∀ doc, entryScheme.asksFor (classFilter p n) doc ↔
        Mentions doc (some [0]) (wordTokens p) ∧ Mentions doc (some [1]) (wordTokens n) := by
  have hlexemes := lexFrom_classFilter hp hn
  rw [← lexemes_eq (toNat_ne_zero_classFilter hp hn)] at hlexemes
  have hhead : (classFilter p n).head? ≠ some '*' := by
    rw [classFilter_eq, filterFront_eq]
    simp
  have hparse := parse_bracketed_both (i := 0) (j := 1)
    (by decide : entryScheme.column "package".toList [] = .ok 0)
    (by decide : entryScheme.column "class_name".toList [] = .ok 1) hlexemes
  have hstar : '"' ∉ n ++ ['*'] := by
    simpa using hn.not_mem_of_isWord (d := '"') (by decide)
  have hwords : wordTokens (n ++ ['*']) = wordTokens n := wordTokens_concat (by decide +kernel) n
  refine ⟨problem?_of_parse hhead hparse, fun doc => ?_⟩
  rw [asksFor_of_parse hhead hparse, Expr.accepts, Bool.and_eq_true, textQuery, textQuery,
    accepts_restrict_groupOf_exactly_iff, accepts_restrict_groupOf_exactly_iff,
    unquote_quoted_of_not_mem hp.quote_not_mem, unquote_quoted_of_not_mem hstar, ← hwords]
  exact Iff.rfl

/-! ### The filter, prepared once more -/

theorem prepareChars_filter :
    prepareChars (classFilter p n) =
      prepareTerm (filterFront p) ++ (" AND ".toList ++ quoted (doubled (filterBack n))) := by
  rw [prepareChars_classFilter hp.notBlank fun c hc => isBlank_eq_false_of_isWord (hn.2 c hc),
      prepareTerm_filterBack (hn.not_mem_of_isWord (by decide))]

theorem lexemes_filter :
    lexemes (prepareChars (classFilter p n)) =
      lexFrom (prepareTerm (filterFront p) ++
        (" AND ".toList ++ quoted (doubled (filterBack n)))) := by
  obtain ⟨hfront, hback⟩ := toNat_ne_zero_filter hp hn
  have hlast := toNat_ne_zero_prepareTerm hback
  rw [prepareTerm_filterBack (hn.not_mem_of_isWord (by decide))] at hlast
  rw [prepareChars_filter hp hn, lexemes_eq]
  simp only [forall_mem_append]
  exact ⟨toNat_ne_zero_prepareTerm hfront, by decide, hlast⟩

end

theorem lexFrom_back (n : List Char) :
    lexFrom (" AND ".toList ++ quoted (doubled (filterBack n))) =
      [.andWord, .text (quoted (doubled (filterBack n))), .stop] := by
  have hquoted : lexFrom (quoted (doubled (filterBack n)) ++ []) =
      .text (quoted (doubled (filterBack n))) :: lexFrom [] :=
    lexFrom_quoted _ (by simp)
  rw [append_nil] at hquoted
  rw [lexFrom_and, hquoted, lexFrom_nil]

theorem wordTokens_filterFront (p : List Char) :
    wordTokens (filterFront p) = "package".toList :: wordTokens p := by
  have hfirst : wordTokens "(package:".toList = ["package".toList] := by decide +kernel
  have hquote : isSeparator '"' := by decide +kernel
  rw [filterFront_eq, quoted, wordTokens_append hquote, wordTokens_concat hquote, hfirst]
  rfl

theorem wordTokens_filterBack (n : List Char) :
    wordTokens (filterBack n) = "class".toList :: "name".toList :: wordTokens n := by
  have hfirst : wordTokens "class_name:".toList = ["class".toList, "name".toList] := by
    decide +kernel
  have hlast : wordTokens "\")".toList = [] := by decide +kernel
  have hsplit : filterBack n = "class_name:".toList ++ '"' :: (n ++ '*' :: "\")".toList) := by
    unfold filterBack
    simp
  rw [hsplit, wordTokens_append (by decide +kernel),
    wordTokens_append (by decide +kernel), hfirst, hlast, append_nil]
  rfl

theorem accepts_back (n : List Char) (doc : Doc) :
    (textQuery entryScheme (quoted (doubled (filterBack n)))).accepts doc ↔
      Mentions doc none ("class".toList :: "name".toList :: wordTokens n) := by
  rw [textQuery, accepts_groupOf_exactly_iff, unquote_quoted, ← wordTokens_filterBack]
  exact Iff.rfl

variable {doc : Doc}

theorem asksFor_filter_of_not_mem (hp : Java.IsDotted p) (hn : Java.IsName n) (hdot : '.' ∉ p)
    (hasks : entryScheme.asksFor (prepareChars (classFilter p n)) doc) :
    Mentions doc none ("package".toList :: wordTokens p) ∧
      Mentions doc none ("class".toList :: "name".toList :: wordTokens n) := by
  have hlexemes : lexemes (prepareChars (classFilter p n)) =
      [.text (quoted (doubled (filterFront p))), .andWord,
        .text (quoted (doubled (filterBack n))), .stop] := by
    rw [lexemes_filter hp hn, prepareTerm_filterFront hdot,
      lexFrom_quoted _ (by simp), lexFrom_back]
  obtain ⟨e, hparse, haccepts⟩ := exists_parse_of_asksFor hasks
  rw [parse_both hlexemes] at hparse
  cases hparse
  rw [Expr.accepts, Bool.and_eq_true, accepts_back, textQuery,
    accepts_groupOf_exactly_iff, unquote_quoted] at haccepts
  rw [← wordTokens_filterFront]
  exact haccepts

theorem lexFrom_quoted_dotted {u : List Char} (hu : Java.IsDotted u) (hdot : '.' ∈ u)
    (rest : List Char) :
    ∃ word, (word = [] ∨ ∃ w, word = [wordLexeme w]) ∧
      lexFrom (quoted "(package:".toList ++ (u ++ rest)) =
        .text (quoted "(package:".toList) :: (word ++ [.broken (.unexpected ['.'])]) := by
  have hend : (u ++ rest).head? ≠ some '"' := by
    intro hhead
    rw [head?_append_of_ne_nil _ hu.1] at hhead
    exact hu.quote_not_mem (mem_of_mem_head? hhead)
  obtain ⟨word, hword, hlex⟩ := hu.lexFrom_append hdot rest
  exact ⟨word, hword, (lexFrom_quoted "(package:".toList hend).trans (by rw [hlex]; rfl)⟩

theorem parse_packageColumn_broken {query raw : List Char} {word : List Lexeme}
    {err : QueryError} (hword : word = [] ∨ ∃ w, word = [wordLexeme w])
    (hlexemes : lexemes query = .mark '(' :: .text "package".toList :: .mark ':' ::
      .text raw :: (word ++ [.broken err])) :
    entryScheme.parse query = .error err := by
  rw [parse, hlexemes]
  rcases hword with rfl | ⟨w, rfl⟩
  · rfl
  · unfold wordLexeme
    split_ifs <;> rfl

/-- The quotes of the filter end before a dot of the package, where the query is refused. -/
theorem problem?_filter (hp : Java.IsDotted p) (hn : Java.IsName n) (hdot : '.' ∈ p)
    (hqualified : isQualified p = false) :
    entryScheme.problem? (prepareChars (classFilter p n)) = some (.unexpected ['.']) := by
  obtain ⟨w, s, hparts, hs⟩ := exists_last_of_mem hdot
  have hfront := prepareTerm_filterFront_dotted (w := w) hs
  rw [hparts, isQualified_append hs] at hqualified
  rw [← hparts] at hfront
  have hlexemes := lexemes_filter hp hn
  have hquery := prepareChars_filter hp hn
  rw [hfront] at hlexemes hquery
  generalize " AND ".toList ++ quoted (doubled (filterBack n)) = tail at hlexemes hquery
  cases hcapital : s.head?.any isCapital with
  | false =>
    rw [hcapital, if_neg Bool.false_ne_true] at hlexemes hquery
    obtain ⟨word, hword, hlex⟩ := lexFrom_quoted_dotted hp hdot ("\"\"".toList ++ tail)
    have htext : quoted (filterFront p) ++ tail =
        quoted "(package:".toList ++ (p ++ ("\"\"".toList ++ tail)) := by
      unfold quoted filterFront
      simp
    rw [htext, hlex] at hlexemes
    refine problem?_of_parse_error ?_ (parse_broken hword hlexemes)
    rw [hquery, quoted]
    simp
  | true =>
    rw [hcapital, if_pos rfl] at hlexemes hquery
    rw [hcapital, Bool.and_true, Bool.not_eq_false', contains_iff_mem] at hqualified
    have hw : Java.IsDotted w :=
      ⟨ne_nil_of_mem hqualified, fun c hc => hp.2 c (hparts ▸ mem_append_left _ hc)⟩
    obtain ⟨word, hword, hlex⟩ := lexFrom_quoted_dotted hw hqualified
      ("\" AND ".toList ++ (filterBack (s ++ ['"']) ++ tail))
    have htext : classFilter ("(package:\"".toList ++ w) (s ++ ['"']) ++ tail =
        "(package:".toList ++ (quoted "(package:".toList ++
          (w ++ ("\" AND ".toList ++ (filterBack (s ++ ['"']) ++ tail)))) := by
      rw [classFilter_eq, filterFront_eq]
      unfold quoted
      simp
    rw [htext, lexFrom_packageColumn, hlex] at hlexemes
    refine problem?_of_parse_error ?_ (parse_packageColumn_broken hword hlexemes)
    rw [hquery, htext]
    simp

/-- A package of one dot with a capital after it becomes a filter within the filter, with its marks
where words are expected. Whatever is read, the words of the last part are asked for. -/
theorem lexFrom_filter_qualified {w s : List Char} (hw : w = [] ∨ Java.IsName w)
    (hs : Java.IsName s) (rest : List Char) :
    ∃ front, .mark ')' ∉ front ∧
      lexFrom (classFilter ("(package:\"".toList ++ w) (s ++ ['"']) ++ rest) =
        .mark '(' :: (front ++ .mark ')' :: lexFrom rest) := by
  have hlast : lexFrom (s ++ (quoted ['*'] ++ ')' :: rest)) =
      wordLexeme s :: .text (quoted ['*']) :: .mark ')' :: lexFrom rest := by
    rw [hs.lexFrom_append (by simp [quoted]; decide),
      lexFrom_quoted_of_not_mem (by decide) (by simp),
      lexFrom_mark (by decide) (by decide)]
  have hend (tail : List Char) : (s ++ tail).head? ≠ some '"' := by
    rw [head?_append_of_ne_nil _ hs.1]
    exact hs.head?_ne_quote
  rcases hw with rfl | hw
  -- Without a word between them the two quotes count as one quote of a longer text.
  · have htext : classFilter ("(package:\"".toList ++ []) (s ++ ['"']) ++ rest =
        "(package:".toList ++ (quoted (doubled "(package:\" AND class_name:".toList) ++
          (s ++ (quoted ['*'] ++ ')' :: rest))) := by
      have hdoubled : doubled "(package:\" AND class_name:".toList =
          "(package:\"\" AND class_name:".toList := by decide
      rw [classFilter_eq, filterFront_eq, filterBack_eq, hdoubled]
      unfold quoted
      simp
    refine ⟨[.text "package".toList, .mark ':',
      .text (quoted (doubled "(package:\" AND class_name:".toList)), wordLexeme s,
      .text (quoted ['*'])], ?_, ?_⟩
    · simp [(wordLexeme_ne_mark _ _).symm]
    · rw [htext, lexFrom_packageColumn, lexFrom_quoted _ (hend _), hlast]
      rfl
  · have htext : classFilter ("(package:\"".toList ++ w) (s ++ ['"']) ++ rest =
        "(package:".toList ++ (quoted "(package:".toList ++
          (w ++ (quoted " AND class_name:".toList ++ (s ++ (quoted ['*'] ++ ')' :: rest))))) := by
      rw [classFilter_eq, filterFront_eq, filterBack_eq]
      unfold quoted
      simp
    have hfirst : (w ++ (quoted " AND class_name:".toList ++
        (s ++ (quoted ['*'] ++ ')' :: rest)))).head? ≠ some '"' := by
      rw [head?_append_of_ne_nil _ hw.1]
      exact hw.head?_ne_quote
    refine ⟨[.text "package".toList, .mark ':', .text (quoted "(package:".toList), wordLexeme w,
      .text (quoted " AND class_name:".toList), wordLexeme s, .text (quoted ['*'])], ?_, ?_⟩
    · simp [(wordLexeme_ne_mark _ _).symm]
    · rw [htext, lexFrom_packageColumn, lexFrom_quoted_of_not_mem (by decide) hfirst,
        hw.lexFrom_append (by simp [quoted]; decide),
        lexFrom_quoted_of_not_mem (by decide) (hend _), hlast]
      rfl

theorem mentions_of_asksFor_filter (hp : Java.IsDotted p) (hn : Java.IsName n)
    (hasks : entryScheme.asksFor (prepareChars (classFilter p n)) doc) :
    Mentions doc none ("class".toList :: "name".toList :: wordTokens n) := by
  by_cases hdot : '.' ∈ p
  · obtain ⟨e, hparse, haccepts⟩ := exists_parse_of_asksFor hasks
    obtain ⟨w, s, hparts, hs⟩ := exists_last_of_mem hdot
    have hqualified : isQualified p := by
      by_contra hnot
      have hproblem := problem?_filter hp hn hdot (eq_false_of_ne_true hnot)
      rw [problem?_eq_none_of_asksFor hasks] at hproblem
      exact nomatch hproblem
    rw [hparts, isQualified_append hs, Bool.and_eq_true, Bool.not_eq_true'] at hqualified
    obtain ⟨hw, hcapital⟩ := hqualified
    have hchars := hp.2
    rw [hparts, forall_mem_append, forall_mem_cons] at hchars
    have hwname : w = [] ∨ Java.IsName w := by
      by_cases hempty : w = []
      · exact .inl hempty
      · exact .inr (Java.IsDotted.isName ⟨hempty, hchars.1⟩ (by simpa using hw))
    have hsname : Java.IsName s := by
      refine Java.IsDotted.isName ⟨?_, hchars.2.2⟩ hs
      rintro rfl
      exact nomatch hcapital
    obtain ⟨front, hfront, hlex⟩ := lexFrom_filter_qualified hwname hsname
      (" AND ".toList ++ quoted (doubled (filterBack n)))
    have hlexemes := lexemes_filter hp hn
    rw [hparts, prepareTerm_filterFront_dotted hs, hcapital, if_pos rfl, ← hparts, hlex,
      lexFrom_back] at hlexemes
    obtain ⟨e₁, rfl⟩ := eq_both_of_parse hlexemes hfront hparse
    rw [Expr.accepts, Bool.and_eq_true, accepts_back] at haccepts
    exact haccepts.2
  · exact (asksFor_filter_of_not_mem hp hn hdot hasks).2

end Filter

end JarAtlas
