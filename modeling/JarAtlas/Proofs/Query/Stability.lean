import JarAtlas.Proofs.Store.Requests

/-!
Preparing a query that was prepared before. A phrase is left alone the second time, and so is a run
that needed no preparation, but a filter on a package or a class is taken for a text with special
characters, and a quote inside a quoted text divides it. So a search, which prepares its query
twice, looks for what one preparation asks for exactly when none of these occurs in the query.
-/

open List

namespace JarAtlas.Query

open Text

variable {t rest p : List Char} {ts : List (List Char)}

/-- Whether a term has none of the characters for which terms are changed. -/
def isPlain (t : List Char) : Bool :=
  !t.any fun c => c == '.' || c == '/' || c == ':' || c == '-'

/-- Whether a term names a package or a class of a package, and becomes a filter. -/
def isFilter (t : List Char) : Bool :=
  t.contains '.' && (['*', '.'].isPrefixOf t.reverse ||
    (Text.splitLast? '.' t).any fun parts => parts.2.head?.any Text.isCapital)

/-- Whether a term stays as it is or becomes a phrase. -/
def isSettled (t : List Char) : Bool :=
  isQuoted t || isPlain t || (!t.contains '"' && !isFilter t)

/-- Terms whose prepared forms are left alone when they are prepared again: each of them is settled,
and after a quote that is left open there are only plain ones. -/
structure AreStable (ts : List (List Char)) : Prop where
  settled : ∀ t ∈ ts, isSettled t = true
  closed : ts.Pairwise fun t u => opensQuote t = true → isPlain u = true

instance (ts : List (List Char)) : Decidable (AreStable ts) :=
  decidable_of_iff ((∀ t ∈ ts, isSettled t = true) ∧
      ts.Pairwise fun t u => opensQuote t = true → isPlain u = true)
    ⟨fun h => ⟨h.1, h.2⟩, fun h => ⟨h.settled, h.closed⟩⟩

def packageFilter (p : List Char) : List Char :=
  "package:\"".toList ++ p ++ "*\"".toList

def classFilter (p n : List Char) : List Char :=
  "(package:\"".toList ++ p ++ "\" AND class_name:\"".toList ++ n ++ "*\")".toList

def filterFront (p : List Char) : List Char :=
  "(package:\"".toList ++ p ++ ['"']

def filterBack (n : List Char) : List Char :=
  "class_name:\"".toList ++ n ++ "*\")".toList

theorem classFilter_eq (p n : List Char) :
    classFilter p n = filterFront p ++ (" AND ".toList ++ filterBack n) := by
  unfold classFilter filterFront filterBack
  simp

theorem isQuoted_quoted (s : List Char) : isQuoted (quoted s) := by
  have hlast : (quoted s).getLast? = some '"' := by
    rw [quoted, ← cons_append, getLast?_concat]
  rw [isQuoted, hlast]
  rfl

/-! ### What becomes of a term -/

section PrepareTerm

variable {t : List Char}

theorem prepareTerm_of_isQuoted (hquoted : isQuoted t) : prepareTerm t = t := by
  simp [prepareTerm, hquoted]

theorem isPlain_eq (t : List Char) : isPlain t =
    (!t.contains '.' && !t.any fun c => c == '/' || c == ':' || c == '-') := by
  rw [isPlain, ← Bool.not_or]
  induction t with
  | nil => rfl
  | cons c t ih => grind

theorem prepareTerm_of_isPlain (hplain : isPlain t) : prepareTerm t = t := by
  rw [isPlain_eq, Bool.and_eq_true, Bool.not_eq_true', Bool.not_eq_true'] at hplain
  simp only [prepareTerm, hplain, Bool.false_eq_true, if_false, ite_self]

theorem prepareTerm_of_text (hquoted : isQuoted t = false) (hplain : isPlain t = false)
    (hfilter : isFilter t = false) :
    prepareTerm t = quoted t ∨ prepareTerm t = quoted (doubled t) := by
  cases hdot : t.contains '.' with
  | true =>
    left
    simp only [isFilter, hdot, Bool.true_and, Bool.or_eq_false_iff] at hfilter
    obtain ⟨hstar, hcapital⟩ := hfilter
    simp only [prepareTerm, hquoted, hdot, dottedTerm, hstar]
    cases hsplit : splitLast? '.' t with
    | none => simp
    | some parts =>
      simp only [hsplit, Option.any_some] at hcapital
      simp [hcapital]
  | false =>
    right
    rw [isPlain_eq, hdot, Bool.not_false, Bool.true_and, Bool.not_eq_false'] at hplain
    simp only [prepareTerm, hquoted, hdot, hplain, Bool.false_eq_true, if_false, if_true]
    rfl

theorem prepareTerm_of_isFilter (hquoted : isQuoted t = false) (hfilter : isFilter t) :
    (∃ p, t = p ++ ['.', '*'] ∧ prepareTerm t = packageFilter p) ∨
      ∃ p n, t = p ++ '.' :: n ∧ prepareTerm t = classFilter p n := by
  simp only [isFilter, Bool.and_eq_true] at hfilter
  obtain ⟨hdot, hfilter⟩ := hfilter
  cases hstar : ['*', '.'].isPrefixOf t.reverse with
  | true =>
    left
    obtain ⟨r, hr⟩ := isPrefixOf_iff_prefix.mp hstar
    have ht : t = r.reverse ++ ['.', '*'] := by
      rw [← reverse_reverse t, ← hr]
      simp
    refine ⟨r.reverse, ht, ?_⟩
    have hdrop : t.dropLast.dropLast = r.reverse := by
      rw [ht]
      simp
    simp only [prepareTerm, hquoted, hdot, dottedTerm, hstar, hdrop, Bool.false_eq_true,
      if_false, if_true]
    rfl
  | false =>
    right
    rw [hstar, Bool.false_or] at hfilter
    cases hsplit : splitLast? '.' t with
    | none => simp [hsplit] at hfilter
    | some parts =>
      obtain ⟨p, n⟩ := parts
      simp only [hsplit, Option.any_some] at hfilter
      refine ⟨p, n, (splitLast?_eq_some hsplit).1, ?_⟩
      simp only [prepareTerm, hquoted, hdot, dottedTerm, hstar, hsplit, hfilter,
        Bool.false_eq_true, if_false, if_true]
      rfl

end PrepareTerm

/-- A text with something other than a blank at both ends. -/
structure HasSolidEnds (cs : List Char) : Prop where
  ne_nil : cs ≠ []
  first : ∀ c ∈ cs.head?, Text.isBlank c = false
  last : ∀ c ∈ cs.getLast?, Text.isBlank c = false

variable {cs a b : List Char}

theorem hasSolidEnds_of_forall (hne : cs ≠ [])
    (hall : ∀ c ∈ cs, isBlank c = false) : HasSolidEnds cs :=
  ⟨hne, fun c hc => hall c (mem_of_mem_head? hc), fun c hc => hall c (mem_of_getLast? hc)⟩

theorem HasSolidEnds.append (ha : HasSolidEnds a) (hb : HasSolidEnds b)
    (between : List Char) : HasSolidEnds (a ++ between ++ b) where
  ne_nil := by simp [ha.ne_nil]
  first := by
    rw [append_assoc, head?_append_of_ne_nil _ ha.ne_nil]
    exact ha.first
  last := by
    rw [getLast?_append_of_ne_nil _ hb.ne_nil]
    exact hb.last

theorem hasSolidEnds_quoted (s : List Char) : HasSolidEnds (quoted s) := by
  have hquote : HasSolidEnds ['"'] := hasSolidEnds_of_forall (by simp) (by decide)
  simpa [quoted] using hquote.append hquote s

theorem IsTerm.hasSolidEnds (ht : IsTerm t) : HasSolidEnds t := by
  cases ht with
  | phrase _ => exact hasSolidEnds_quoted _
  | run hne hsolid _ => exact hasSolidEnds_of_forall hne hsolid

theorem hasSolidEnds_packageFilter (p : List Char) : HasSolidEnds (packageFilter p) :=
  (hasSolidEnds_of_forall (by decide) (by decide)).append
    (hasSolidEnds_of_forall (by decide) (by decide)) p

theorem hasSolidEnds_classFilter (p n : List Char) : HasSolidEnds (classFilter p n) := by
  have hends := HasSolidEnds.append (a := "(package:\"".toList) (b := "*\")".toList)
    (hasSolidEnds_of_forall (by decide) (by decide))
    (hasSolidEnds_of_forall (by decide) (by decide)) (p ++ "\" AND class_name:\"".toList ++ n)
  exact hends

theorem IsTerm.hasSolidEnds_prepareTerm (ht : IsTerm t) : HasSolidEnds (prepareTerm t) := by
  cases hquoted : isQuoted t with
  | true =>
    rw [prepareTerm_of_isQuoted hquoted]
    exact ht.hasSolidEnds
  | false =>
    cases hfilter : isFilter t with
    | true =>
      rcases prepareTerm_of_isFilter hquoted hfilter with ⟨p, -, hsame⟩ | ⟨p, n, -, hsame⟩
      · rw [hsame]
        exact hasSolidEnds_packageFilter p
      · rw [hsame]
        exact hasSolidEnds_classFilter p n
    | false =>
      cases hplain : isPlain t with
      | true =>
        rw [prepareTerm_of_isPlain hplain]
        exact ht.hasSolidEnds
      | false =>
        rcases prepareTerm_of_text hquoted hplain hfilter with hsame | hsame <;>
          rw [hsame] <;> exact hasSolidEnds_quoted _

theorem hasSolidEnds_intercalate {us : List (List Char)} (hne : us ≠ [])
    (hus : ∀ u ∈ us, HasSolidEnds u) : HasSolidEnds ([' '].intercalate us) := by
  induction us with
  | nil => exact absurd rfl hne
  | cons u us ih =>
    obtain ⟨hu, hus⟩ := forall_mem_cons.mp hus
    cases us with
    | nil => simpa using hu
    | cons v us =>
      rw [intercalate_cons_cons]
      exact hu.append (ih (by simp) hus) [' ']

theorem hasSolidEnds_prepareChars (hsome : terms cs ≠ []) : HasSolidEnds (prepareChars cs) := by
  refine hasSolidEnds_intercalate (by simpa using hsome) fun u hu => ?_
  obtain ⟨t, ht, rfl⟩ := mem_map.mp hu
  exact ((areTerms_terms cs).each t ht).hasSolidEnds_prepareTerm

theorem strip_prepare (q : String) : strip (prepare q) = prepare q := by
  have htrim : trim (prepareChars q.toList) = prepareChars q.toList := by
    by_cases hnone : terms q.toList = []
    · rw [prepareChars, hnone]
      rfl
    · have hends := hasSolidEnds_prepareChars hnone
      exact trimBy_eq_self hends.first hends.last
  rw [strip, prepare, String.toList_ofList, htrim]

/-! ### Terms that are left alone -/

theorem prepareTerm_of_isSettled (ht : isSettled t) :
    prepareTerm t = t ∨ '"' ∉ t ∧ prepareTerm t = quoted t := by
  cases hquoted : isQuoted t with
  | true => exact .inl (prepareTerm_of_isQuoted hquoted)
  | false =>
    cases hplain : isPlain t with
    | true => exact .inl (prepareTerm_of_isPlain hplain)
    | false =>
      have hrest : '"' ∉ t ∧ isFilter t = false := by
        simpa [isSettled, hquoted, hplain] using ht
      refine .inr ⟨hrest.1, ?_⟩
      rcases prepareTerm_of_text hquoted hplain hrest.2 with hsame | hsame
      · exact hsame
      · rw [hsame, doubled_eq_self hrest.1]

theorem AreStable.areTerms_prepared (hts : AreTerms ts) (hstable : AreStable ts) :
    AreTerms (ts.map prepareTerm) where
  each := by
    intro u hu
    obtain ⟨t, ht, rfl⟩ := mem_map.mp hu
    rcases prepareTerm_of_isSettled (hstable.settled t ht) with hsame | ⟨hfree, hsame⟩
    · rw [hsame]
      exact hts.each t ht
    · rw [hsame]
      exact .phrase hfree
  closed := by
    rw [pairwise_map]
    refine (hts.closed.and hstable.closed).imp_of_mem fun {t u} ht hu hboth hopens => ?_
    rcases prepareTerm_of_isSettled (hstable.settled t ht) with hsame | ⟨-, hsame⟩
    · rw [hsame] at hopens
      rw [prepareTerm_of_isPlain (hboth.2 hopens)]
      exact hboth.1 hopens
    · rw [hsame, opensQuote_quoted] at hopens
      exact absurd hopens Bool.false_ne_true

theorem prepareTerm_prepareTerm (ht : isSettled t) :
    prepareTerm (prepareTerm t) = prepareTerm t := by
  rcases prepareTerm_of_isSettled ht with hsame | ⟨-, hsame⟩
  · rw [hsame, hsame]
  · rw [hsame, prepareTerm_of_isQuoted (isQuoted_quoted t)]

theorem AreStable.prepared_again (hstable : AreStable ts) :
    (ts.map prepareTerm).map prepareTerm = ts.map prepareTerm := by
  rw [map_map]
  exact map_congr_left fun t ht => prepareTerm_prepareTerm (hstable.settled t ht)

theorem IsTerm.terms_prepareTerm_append (ht : IsTerm t) (hsettled : isSettled t)
    (hend : ∀ c ∈ rest.head?, isBlank c) (hopen : opensQuote t → '"' ∉ rest) :
    terms (prepareTerm t ++ rest) = prepareTerm t :: terms rest := by
  rcases prepareTerm_of_isSettled hsettled with hsame | ⟨hfree, hsame⟩
  · rw [hsame]
    cases ht with
    | phrase hs => exact terms_phrase_append hs rest
    | run hne hsolid hlone =>
      refine terms_run_append hne hsolid hend fun hhead hmem => ?_
      rcases mem_append.mp hmem with hmem | hmem
      · exact hlone hhead hmem
      · exact hopen (opensQuote_iff.mpr ⟨hhead, hlone hhead⟩) hmem
  · rw [hsame]
    exact terms_phrase_append hfree rest

/-! ### Terms that are changed again -/

theorem written_ne_of_quote {d : Char} (ha : '"' ∉ a) (hd : isBlank d = false) :
    written ((terms (quoted a ++ d :: b)).map prepareTerm) ≠ ' ' :: (quoted a ++ d :: b) := by
  intro hsame
  rw [terms_phrase_append ha, map_cons, prepareTerm_of_isQuoted (isQuoted_quoted a),
    written_cons] at hsame
  have hrest := append_cancel_left (cons.inj hsame).2
  have hblank := isBlank_head_written ((terms (d :: b)).map prepareTerm) d (by rw [hrest]; rfl)
  rw [hd] at hblank
  exact absurd hblank Bool.false_ne_true

theorem prepareTerm_of_quote_end {v : List Char} (hfirst : v.head? ≠ some '"')
    (hlast : v.getLast? = some '"') (hcolon : ':' ∈ v) :
    (∃ s, prepareTerm v = quoted s) ∨
      ∃ p n, v = p ++ '.' :: n ∧ prepareTerm v = classFilter p n := by
  have hquoted : isQuoted v = false := by
    simp [isQuoted, hfirst]
  have hplain : isPlain v = false := by
    simp only [isPlain, Bool.not_eq_false', any_eq_true]
    exact ⟨':', hcolon, by decide⟩
  cases hfilter : isFilter v with
  | true =>
    rcases prepareTerm_of_isFilter hquoted hfilter with ⟨p, hv, -⟩ | hclass
    · rw [hv] at hlast
      simp at hlast
    · exact .inr hclass
  | false =>
    rcases prepareTerm_of_text hquoted hplain hfilter with hsame | hsame
    · exact .inl ⟨_, hsame⟩
    · exact .inl ⟨_, hsame⟩

theorem written_ne_of_packageFilter (hp : ∀ c ∈ p, isBlank c = false)
    (hrest : ∀ c ∈ rest.head?, isBlank c) :
    written ((terms (packageFilter p ++ rest)).map prepareTerm) ≠
      ' ' :: (packageFilter p ++ rest) := by
  have hhead : (packageFilter p).head? = some 'p' := by
    unfold packageFilter
    simp
  have hlast : (packageFilter p).getLast? = some '"' := by
    unfold packageFilter
    rw [getLast?_append_of_ne_nil _ (by decide)]
    decide
  have hsolid : ∀ c ∈ packageFilter p, isBlank c = false := by
    unfold packageFilter
    rw [forall_mem_append, forall_mem_append]
    exact ⟨⟨by decide, hp⟩, by decide⟩
  have hcolon : ':' ∈ packageFilter p := by
    unfold packageFilter
    simp
  intro hsame
  rw [terms_run_append (hasSolidEnds_packageFilter p).ne_nil hsolid hrest (by simp [hhead]),
    map_cons, written_cons] at hsame
  have hheads := congrArg head? (cons.inj hsame).2
  rw [head?_append_of_ne_nil _ (hasSolidEnds_packageFilter p).ne_nil, hhead] at hheads
  rcases prepareTerm_of_quote_end (by simp [hhead]) hlast hcolon with
    ⟨s, hprepared⟩ | ⟨q, n, -, hprepared⟩
  · simp [hprepared, quoted] at hheads
  · rw [hprepared] at hheads
    unfold classFilter at hheads
    simp at hheads

theorem isBlank_filterFront (hp : ∀ c ∈ p, isBlank c = false) :
    ∀ c ∈ filterFront p, isBlank c = false := by
  unfold filterFront
  rw [forall_mem_append, forall_mem_append]
  exact ⟨⟨by decide, hp⟩, by decide⟩

theorem head?_filterFront (p : List Char) : (filterFront p).head? = some '(' := by
  unfold filterFront
  simp

/-- The first part of a filter becomes something else, even if it names a class again: it would have
to be a filter for a package with one dot less. -/
theorem prepareTerm_filterFront_append_ne (hp : ∀ c ∈ p, isBlank c = false)
    (rest more : List Char) :
    prepareTerm (filterFront p) ++ rest ≠ filterFront p ++ ' ' :: more := by
  have hspace {cs : List Char} (hcs : ∀ c ∈ cs, isBlank c = false) : ' ' ∉ cs :=
    fun hmem => absurd (hcs _ hmem) (by decide)
  have hfront := isBlank_filterFront hp
  intro hsame
  rcases prepareTerm_of_quote_end (v := filterFront p) (by simp [head?_filterFront])
    (by unfold filterFront; exact getLast?_concat) (by unfold filterFront; simp) with
    ⟨s, hprepared⟩ | ⟨q, n, hq, hprepared⟩
  · have hheads := congrArg head? hsame
    simp [hprepared, quoted, head?_filterFront] at hheads
  · have hsolid : ∀ c ∈ q, isBlank c = false := fun c hc =>
      hfront c (by rw [hq]; exact mem_append_left _ hc)
    rw [hprepared, classFilter_eq, append_assoc] at hsame
    have hfronts : filterFront q = filterFront p :=
      eq_of_append_cons_eq (hspace (isBlank_filterFront hsolid)) (hspace hfront) hsame
    have hdots := congrArg (count '.') hq
    rw [← hfronts] at hdots
    unfold filterFront at hdots
    simp at hdots

theorem written_ne_of_classFilter {n : List Char} (rest : List Char)
    (hp : ∀ c ∈ p, isBlank c = false) :
    written ((terms (classFilter p n ++ rest)).map prepareTerm) ≠
      ' ' :: (classFilter p n ++ rest) := by
  have hsplit : classFilter p n ++ rest =
      filterFront p ++ ' ' :: ("AND ".toList ++ filterBack n ++ rest) := by
    rw [classFilter_eq]
    simp
  intro hsame
  rw [hsplit, terms_run_append (by unfold filterFront; simp) (isBlank_filterFront hp)
    (by simp; decide) (by simp [head?_filterFront]), map_cons, written_cons] at hsame
  exact prepareTerm_filterFront_append_ne hp _ _ (cons.inj hsame).2

/-- The first quote in the prepared form of a run without quotes has a character after it that is
not blank, so a phrase that ends there is not followed by a space. -/
theorem exists_quote_prepareTerm (hne : t ≠ []) (hsolid : ∀ c ∈ t, isBlank c = false)
    (hfree : '"' ∉ t) (hplain : isPlain t = false) :
    ∃ a d b, prepareTerm t = a ++ '"' :: d :: b ∧ '"' ∉ a ∧ isBlank d = false := by
  -- Whatever follows the quote, its first character is solid.
  have hfirst (front s : List Char) (hs : HasSolidEnds s) (rest : List Char) (hquote : '"' ∉ front) :
      ∃ a d b, front ++ '"' :: (s ++ rest) = a ++ '"' :: d :: b ∧ '"' ∉ a ∧
        isBlank d = false := by
    obtain ⟨d, s, rfl⟩ := exists_cons_of_ne_nil hs.ne_nil
    exact ⟨front, d, s ++ rest, rfl, hquote, hs.first d rfl⟩
  have hquoted : isQuoted t = false := by
    have hhead : t.head? ≠ some '"' := fun hhead => hfree (mem_of_mem_head? hhead)
    simp [isQuoted, hhead]
  have hends := hasSolidEnds_of_forall hne hsolid
  cases hfilter : isFilter t with
  | false =>
    have hsame : prepareTerm t = [] ++ '"' :: (t ++ ['"']) := by
      rcases prepareTerm_of_text hquoted hplain hfilter with hsame | hsame
      · exact hsame
      · rw [hsame, doubled_eq_self hfree]
        rfl
    rw [hsame]
    exact hfirst [] t hends ['"'] (by simp)
  | true =>
    rcases prepareTerm_of_isFilter hquoted hfilter with ⟨p, ht, hsame⟩ | ⟨p, n, ht, hsame⟩
    · have hp : ∀ c ∈ p ++ ['*', '"'], isBlank c = false := by
        refine forall_mem_append.mpr ⟨fun c hc => hsolid c ?_, by decide⟩
        rw [ht]
        exact mem_append_left _ hc
      have hform : packageFilter p = "package:".toList ++ '"' :: (p ++ ['*', '"'] ++ []) := by
        unfold packageFilter
        simp
      rw [hsame, hform]
      exact hfirst _ _ (hasSolidEnds_of_forall (by simp) hp) _ (by decide)
    · have hp : ∀ c ∈ p ++ ['"'], isBlank c = false := by
        refine forall_mem_append.mpr ⟨fun c hc => hsolid c ?_, by decide⟩
        rw [ht]
        exact mem_append_left _ hc
      have hform : classFilter p n = "(package:".toList ++
          '"' :: (p ++ ['"'] ++ (" AND ".toList ++ filterBack n)) := by
        rw [classFilter_eq]
        unfold filterFront
        simp
      rw [hsame, hform]
      exact hfirst _ _ (hasSolidEnds_of_forall (by simp) hp) _ (by decide)

theorem exists_quote_written (hts : ∀ t ∈ ts, IsTerm t) (hfree : ∀ t ∈ ts, '"' ∉ t)
    (hplain : ∃ t ∈ ts, isPlain t = false) :
    ∃ a d b, written (ts.map prepareTerm) = a ++ '"' :: d :: b ∧ '"' ∉ a ∧
      isBlank d = false := by
  induction ts with
  | nil => simp at hplain
  | cons t ts ih =>
    obtain ⟨ht, hts⟩ := forall_mem_cons.mp hts
    obtain ⟨htfree, hfree⟩ := forall_mem_cons.mp hfree
    cases hfirst : isPlain t with
    | true =>
      have hlater : ∃ t ∈ ts, isPlain t = false := by simpa [hfirst] using hplain
      obtain ⟨a, d, b, hsame, ha, hd⟩ := ih hts hfree hlater
      refine ⟨' ' :: (t ++ a), d, b, ?_, ?_, hd⟩
      · rw [map_cons, written_cons, prepareTerm_of_isPlain hfirst, hsame]
        simp
      · simp [htfree, ha]
    | false =>
      cases ht with
      | phrase _ => simp [quoted] at htfree
      | run hne hsolid _ =>
        obtain ⟨a, d, b, hsame, ha, hd⟩ := exists_quote_prepareTerm hne hsolid htfree hfirst
        refine ⟨' ' :: a, d, b ++ written (ts.map prepareTerm), ?_, by simpa using ha, hd⟩
        rw [map_cons, written_cons, hsame]
        simp

theorem exists_phrase_prepareTerm (hsolid : ∀ c ∈ t, isBlank c = false)
    (hquoted : isQuoted t = false) (hplain : isPlain t = false) (hfilter : isFilter t = false)
    (hquote : '"' ∈ t) :
    ∃ a d b, prepareTerm t = quoted a ++ d :: b ∧ '"' ∉ a ∧ isBlank d = false := by
  obtain ⟨a, more, rfl, ha⟩ := eq_append_cons_of_mem hquote
  rcases prepareTerm_of_text hquoted hplain hfilter with hsame | hsame
  · have hmore : ∀ c ∈ more ++ ['"'], isBlank c = false :=
      forall_mem_append.mpr ⟨fun c hc => hsolid c (by simp [hc]), by decide⟩
    obtain ⟨d, b, hcons⟩ := exists_cons_of_ne_nil (concat_ne_nil '"' more)
    refine ⟨a, d, b, ?_, ha, hmore d (by rw [hcons]; exact mem_cons_self)⟩
    rw [hsame, ← hcons]
    simp [quoted]
  · refine ⟨a, '"', doubled more ++ ['"'], ?_, ha, by decide⟩
    have hdoubled : doubled (a ++ '"' :: more) = a ++ '"' :: '"' :: doubled more := by
      conv_rhs => rw [← doubled_eq_self ha]
      simp [doubled]
    rw [hsame, hdoubled]
    simp [quoted]

theorem isPlain_of_isQuoted_run (hlone : t.head? = some '"' → '"' ∉ t.tail)
    (hquoted : isQuoted t) : isPlain t := by
  obtain ⟨hhead, hlast⟩ : t.head? = some '"' ∧ t.getLast? = some '"' := by
    simpa [isQuoted] using hquoted
  obtain ⟨w, rfl⟩ := head?_eq_some_iff.mp hhead
  cases w with
  | nil => decide
  | cons c w =>
    rw [getLast?_cons_cons] at hlast
    exact absurd (mem_of_getLast? hlast) (hlone hhead)

theorem IsTerm.isSettled_of_written_eq (ht : IsTerm t)
    (hend : ∀ c ∈ rest.head?, isBlank c)
    (hsame : written ((terms (prepareTerm t ++ rest)).map prepareTerm) =
      ' ' :: (prepareTerm t ++ rest)) : isSettled t := by
  cases ht with
  | phrase _ => simp [isSettled, isQuoted_quoted]
  | run hne hsolid hlone =>
    cases hplain : isPlain t with
    | true => simp [isSettled, hplain]
    | false =>
      have hquoted : isQuoted t = false := by
        by_contra hquoted
        rw [isPlain_of_isQuoted_run hlone (by simpa using hquoted)] at hplain
        exact Bool.false_ne_true hplain.symm
      cases hfilter : isFilter t with
      | true =>
        rcases prepareTerm_of_isFilter hquoted hfilter with
          ⟨p, rfl, hprepared⟩ | ⟨p, n, rfl, hprepared⟩
        · rw [hprepared] at hsame
          exact absurd hsame
            (written_ne_of_packageFilter (fun c hc => hsolid c (by simp [hc])) hend)
        · rw [hprepared] at hsame
          exact absurd hsame
            (written_ne_of_classFilter rest fun c hc => hsolid c (by simp [hc]))
      | false =>
        by_cases hquote : '"' ∈ t
        · obtain ⟨a, d, b, hprepared, ha, hd⟩ :=
            exists_phrase_prepareTerm hsolid hquoted hplain hfilter hquote
          rw [hprepared, append_assoc] at hsame
          exact absurd hsame (written_ne_of_quote ha hd)
        · simp [isSettled, hquote, hfilter]

theorem isPlain_of_written_eq (hts : AreTerms (t :: ts)) (hsettled : isSettled t)
    (hopens : opensQuote t)
    (hsame : written ((terms (prepareTerm t ++ written (ts.map prepareTerm))).map prepareTerm) =
      ' ' :: (prepareTerm t ++ written (ts.map prepareTerm))) : ∀ u ∈ ts, isPlain u := by
  obtain ⟨hhead, htail⟩ := opensQuote_iff.mp hopens
  obtain ⟨w, rfl⟩ := head?_eq_some_iff.mp hhead
  have hkept : prepareTerm ('"' :: w) = '"' :: w := by
    rcases prepareTerm_of_isSettled hsettled with hkept | ⟨hfree, -⟩
    · exact hkept
    · simp at hfree
  intro u hu
  by_contra hmarked
  obtain ⟨a, d, b, hlater, ha, hd⟩ :=
    exists_quote_written (forall_mem_cons.mp hts.each).2
      (fun u hu => (pairwise_cons.mp hts.closed).1 u hu hopens)
      ⟨u, hu, by simpa using hmarked⟩
  have hsplit : '"' :: w ++ (a ++ '"' :: d :: b) = quoted (w ++ a) ++ d :: b := by simp [quoted]
  rw [hkept, hlater, hsplit] at hsame
  exact written_ne_of_quote (by simpa [ha] using htail) hd hsame

theorem areStable_of_written_eq (hts : AreTerms ts)
    (hsame : written ((terms (written (ts.map prepareTerm))).map prepareTerm) =
      written (ts.map prepareTerm)) : AreStable ts := by
  induction ts with
  | nil => exact ⟨by simp, .nil⟩
  | cons t ts ih =>
    obtain ⟨ht, hrest⟩ := forall_mem_cons.mp hts.each
    obtain ⟨hopen, hclosed⟩ := pairwise_cons.mp hts.closed
    rw [map_cons, written_cons, terms_cons_blank (by decide)] at hsame
    have hend := isBlank_head_written (ts.map prepareTerm)
    have hsettled := ht.isSettled_of_written_eq hend hsame
    have hplain (hopens : opensQuote t) := isPlain_of_written_eq hts hsettled hopens hsame
    have hfree (hopens : opensQuote t) : '"' ∉ written (ts.map prepareTerm) := by
      rw [map_congr_left fun u hu => prepareTerm_of_isPlain (hplain hopens u hu), map_id']
      exact not_mem_written fun u hu => hopen u hu hopens
    rw [ht.terms_prepareTerm_append hsettled hend hfree, map_cons,
      prepareTerm_prepareTerm hsettled, written_cons] at hsame
    have hothers := ih ⟨hrest, hclosed⟩ (append_cancel_left (cons.inj hsame).2)
    exact ⟨forall_mem_cons.mpr ⟨hsettled, hothers.settled⟩,
      pairwise_cons.mpr ⟨fun u hu hopens => hplain hopens u hu, hothers.closed⟩⟩

/-- The terms of a query come through a second preparation unchanged exactly when they are
stable. -/
theorem prepareChars_prepareChars_iff (cs : List Char) :
    prepareChars (prepareChars cs) = prepareChars cs ↔ AreStable (terms cs) := by
  have hts := areTerms_terms cs
  by_cases hnone : terms cs = []
  · have hempty : prepareChars cs = [] := by rw [prepareChars, hnone]; rfl
    rw [hempty, hnone]
    exact ⟨fun _ => ⟨by simp, .nil⟩, fun _ => rfl⟩
  · have hne : (terms cs).map prepareTerm ≠ [] := by simpa using hnone
    have hwritten : written ((terms cs).map prepareTerm) = ' ' :: prepareChars cs :=
      written_eq_cons hne
    have hterms : terms (written ((terms cs).map prepareTerm)) = terms (prepareChars cs) := by
      rw [hwritten, terms_cons_blank (by decide)]
    constructor
    · intro hsame
      have hagain : (terms (prepareChars cs)).map prepareTerm ≠ [] := by
        intro hempty
        have hnil : prepareChars cs = [] := by
          rw [← hsame, prepareChars, hempty]
          rfl
        exact (hasSolidEnds_prepareChars hnone).ne_nil hnil
      refine areStable_of_written_eq hts ?_
      rw [hterms, written_eq_cons hagain, hwritten]
      exact congrArg (' ' :: ·) hsame
    · intro hstable
      rw [(hstable.areTerms_prepared hts).terms_written] at hterms
      rw [prepareChars, ← hterms, hstable.prepared_again]
      rfl

theorem prepare_eq_empty_iff {q : String} : prepare q = "" ↔ strip q = "" := by
  rw [← terms_eq_nil_iff_strip, prepare, String.ofList_eq_empty_iff]
  constructor
  · intro hempty
    by_contra hsome
    exact (hasSolidEnds_prepareChars hsome).ne_nil hempty
  · intro hnone
    rw [prepareChars, hnone]
    rfl

/-- A query that is prepared twice is the query that was prepared once exactly when its terms are
stable. A search for such a query finds what one preparation asks for. -/
theorem prepareTwice_eq_iff (q : String) :
    (prepareTwice q = Text.strip (prepare q) ↔ AreStable (terms q.toList)) ∧
      (AreStable (terms q.toList) → ∀ (d : Database) (r : SearchRequest),
        d.search { r with query := .str (Text.strip (prepare q)) } =
          d.search { r with query := .str q }) := by
  have hiff : prepareTwice q = Text.strip (prepare q) ↔ AreStable (terms q.toList) := by
    rw [← prepareChars_prepareChars_iff, prepareTwice, strip_prepare]
    constructor
    · intro hsame
      have hchars := congrArg String.toList hsame
      simpa [prepare] using hchars
    · intro hsame
      simp [prepare, hsame]
  refine ⟨hiff, fun hstable d r => ?_⟩
  have htwice : prepare (Text.strip (prepare q)) = prepare q :=
    (hiff.mpr hstable).trans (strip_prepare q)
  have hempty : (Text.strip (Text.strip (prepare q)) == "") = (Text.strip q == "") := by
    rw [strip_prepare, strip_prepare, Bool.eq_iff_iff, beq_iff_eq, beq_iff_eq,
      prepare_eq_empty_iff]
  exact Database.search_eq_of_prepare_eq hempty htwice d r

-- A filter for a class is taken apart when it is prepared again.
example : prepareTwice "a.B" ≠ Text.strip (prepare "a.B") := by decide +kernel

/-! ### Qualified names as queries -/

variable {t p n : List Char} {w s : List Char}

theorem isQuoted_of_head? (hhead : t.head? ≠ some '"') : isQuoted t = false := by
  simp [isQuoted, hhead]

theorem toNat_ne_zero_prepareTerm (ht : ∀ c ∈ t, c.toNat ≠ 0) :
    ∀ c ∈ prepareTerm t, c.toNat ≠ 0 := by
  have hquoted : ∀ c ∈ quoted t, c.toNat ≠ 0 := by
    unfold quoted
    simp only [forall_mem_cons, forall_mem_append]
    exact ⟨by decide, ht, by decide, by simp⟩
  have hdotted : ∀ c ∈ dottedTerm t, c.toNat ≠ 0 := by
    unfold dottedTerm
    split
    · simp only [forall_mem_append]
      refine ⟨⟨by decide, fun c hc => ht c ?_⟩, by decide⟩
      exact dropLast_subset _ (dropLast_subset _ hc)
    · split
      · next p n hsplit =>
        rw [(splitLast?_eq_some hsplit).1, forall_mem_append, forall_mem_cons] at ht
        split
        · simp only [forall_mem_append]
          exact ⟨⟨⟨⟨by decide, ht.1⟩, by decide⟩, ht.2.2⟩, by decide⟩
        · exact hquoted
      · exact hquoted
  unfold prepareTerm
  split
  · exact ht
  · split
    · exact hdotted
    · split
      · unfold quoted
        simp only [forall_mem_cons, forall_mem_append, forall_mem_flatMap]
        refine ⟨by decide, fun c hc => ?_, by decide, by simp⟩
        split
        · decide
        · simpa using ht c hc
      · exact ht

theorem prepareTerm_dotted (hquoted : isQuoted (p ++ '.' :: n) = false) (hdot : '.' ∉ n)
    (hstar : n ≠ ['*']) :
    prepareTerm (p ++ '.' :: n) =
      if n.head?.any isCapital then classFilter p n else quoted (p ++ '.' :: n) := by
  have hsplit : splitLast? '.' (p ++ '.' :: n) = some (p, n) := splitLast?_append hdot
  have hends : ['*', '.'].isPrefixOf (p ++ '.' :: n).reverse = false := by
    by_contra hends
    obtain ⟨r, hr⟩ := isPrefixOf_iff_prefix.mp (Bool.of_not_eq_false hends)
    have hsame : p ++ '.' :: n = r.reverse ++ '.' :: ['*'] := by
      rw [← reverse_reverse (p ++ '.' :: n), ← hr]
      simp
    rw [hsame, splitLast?_append (by decide)] at hsplit
    exact hstar (Prod.mk.inj (Option.some.inj hsplit)).2.symm
  have hcontains : (p ++ '.' :: n).contains '.' := by simp
  simp only [prepareTerm, hquoted, hcontains, dottedTerm, hends, hsplit, Bool.false_eq_true,
    if_false, if_true]
  rfl

theorem prepareTerm_colon (hquoted : isQuoted t = false) (hdot : '.' ∉ t) (hcolon : ':' ∈ t) :
    prepareTerm t = quoted (doubled t) := by
  have hcontains : t.contains '.' = false := by simpa using hdot
  have hmarks : (t.any fun c => c == '/' || c == ':' || c == '-') = true :=
    any_eq_true.mpr ⟨':', hcolon, by decide⟩
  simp only [prepareTerm, hquoted, hcontains, hmarks, Bool.false_eq_true, if_false, if_true]
  rfl

theorem prepareChars_qualified (hp : ∀ c ∈ p, isBlank c = false) (hquote : p.head? ≠ some '"')
    (hn : ∀ c ∈ n, isBlank c = false) (hdot : '.' ∉ n)
    (hcapital : (n.head?.any isCapital)) :
    prepareChars (p ++ '.' :: n) = classFilter p n := by
  have hhead : (p ++ '.' :: n).head? ≠ some '"' := by
    cases p with
    | nil => simp
    | cons c p => simpa using hquote
  have hsolid : ∀ c ∈ p ++ '.' :: n, isBlank c = false :=
    forall_mem_append.mpr ⟨hp, forall_mem_cons.mpr ⟨by decide, hn⟩⟩
  have hstar : n ≠ ['*'] := by
    rintro rfl
    exact absurd hcapital (by decide)
  rw [prepareChars, terms_run (by simp) hsolid hhead, map_singleton,
    prepareTerm_dotted (isQuoted_of_head? hhead) hdot hstar, if_pos hcapital]
  exact intercalate_singleton

theorem filterFront_eq (p : List Char) : filterFront p = "(package:".toList ++ quoted p := by
  unfold filterFront quoted
  simp

theorem filterBack_eq (n : List Char) :
    filterBack n = "class_name".toList ++ ':' :: (quoted (n ++ ['*']) ++ [')']) := by
  unfold filterBack quoted
  simp

theorem terms_classFilter (hp : ∀ c ∈ p, isBlank c = false)
    (hn : ∀ c ∈ n, isBlank c = false) :
    terms (classFilter p n) = [filterFront p, "AND".toList, filterBack n] := by
  have hback : ∀ c ∈ filterBack n, isBlank c = false := by
    unfold filterBack
    exact forall_mem_append.mpr ⟨forall_mem_append.mpr ⟨by decide, hn⟩, by decide⟩
  have hfront : terms (filterFront p ++ ' ' :: ("AND".toList ++ ' ' :: filterBack n)) =
      filterFront p :: terms (' ' :: ("AND".toList ++ ' ' :: filterBack n)) :=
    terms_run_append (by unfold filterFront; simp) (isBlank_filterFront hp) (by simp; decide)
      (by simp [head?_filterFront])
  have hand : terms ("AND".toList ++ ' ' :: filterBack n) =
      "AND".toList :: terms (' ' :: filterBack n) :=
    terms_run_append (by decide) (by decide) (by simp; decide)
      fun hquote => absurd hquote (by decide)
  have hlast : terms (filterBack n) = [filterBack n] :=
    terms_run (by unfold filterBack; simp) hback (by unfold filterBack; simp)
  have hsplit : classFilter p n =
      filterFront p ++ ' ' :: ("AND".toList ++ ' ' :: filterBack n) := by
    rw [classFilter_eq]
    rfl
  rw [hsplit, hfront, terms_cons_blank (by decide), hand, terms_cons_blank (by decide), hlast]

theorem prepareChars_classFilter (hp : ∀ c ∈ p, isBlank c = false)
    (hn : ∀ c ∈ n, isBlank c = false) :
    prepareChars (classFilter p n) =
      prepareTerm (filterFront p) ++ (" AND ".toList ++ prepareTerm (filterBack n)) := by
  have hand : prepareTerm "AND".toList = "AND".toList := prepareTerm_of_isPlain (by decide)
  rw [prepareChars, terms_classFilter hp hn, map_cons, map_cons, map_singleton, hand]
  simp [intercalate_cons_cons]

theorem prepareTerm_filterBack (hdot : '.' ∉ n) :
    prepareTerm (filterBack n) = quoted (doubled (filterBack n)) := by
  refine prepareTerm_colon ?_ ?_ ?_ <;> unfold filterBack
  · simp [isQuoted]
  · simpa using hdot
  · simp

theorem prepareTerm_filterFront (hdot : '.' ∉ p) :
    prepareTerm (filterFront p) = quoted (doubled (filterFront p)) := by
  have hquoted : isQuoted (filterFront p) = false := isQuoted_of_head? (by simp [head?_filterFront])
  refine prepareTerm_colon hquoted ?_ ?_ <;> unfold filterFront
  · simpa using hdot
  · simp

theorem prepareTerm_filterFront_dotted (hdot : '.' ∉ s) :
    prepareTerm (filterFront (w ++ '.' :: s)) =
      if s.head?.any isCapital then classFilter ("(package:\"".toList ++ w) (s ++ ['"'])
      else quoted (filterFront (w ++ '.' :: s)) := by
  have hsplit : filterFront (w ++ '.' :: s) =
      ("(package:\"".toList ++ w) ++ '.' :: (s ++ ['"']) := by
    unfold filterFront
    simp
  have hquoted : isQuoted (filterFront (w ++ '.' :: s)) = false :=
    isQuoted_of_head? (by simp [head?_filterFront])
  have hstar : s ++ ['"'] ≠ ['*'] := by
    intro hsame
    have hlast := congrArg getLast? hsame
    rw [getLast?_concat] at hlast
    exact absurd hlast (by decide)
  have hhead : ((s ++ ['"']).head?.any isCapital) = (s.head?.any isCapital) := by
    cases s with
    | nil => decide
    | cons c s => rfl
  rw [hsplit] at hquoted ⊢
  rw [prepareTerm_dotted hquoted (by simpa using hdot) hstar, hhead]

/-- A text with one dot and a capital after it. -/
def isQualified (cs : List Char) : Bool :=
  (Text.splitLast? '.' cs).any fun parts =>
    !parts.1.contains '.' && parts.2.head?.any Text.isCapital

theorem isQualified_append (hdot : '.' ∉ s) :
    isQualified (w ++ '.' :: s) = (!w.contains '.' && s.head?.any isCapital) := by
  rw [isQualified, splitLast?_append hdot]
  rfl

end JarAtlas.Query
