import JarAtlas.Proofs.Text.Words
import JarAtlas.Query.Terms

/-!
How a query is divided into terms, as rules and as a law: terms that are written one after another
with a space before each are the terms of what was written, as long as no quote is left open before
a term with a quote.
-/

open List

namespace JarAtlas.Query

open Text

variable {c : Char} {cs : List Char} {ts : List (List Char)} {w t : List Char}

/-- How a query is divided. At a quote that is closed later a phrase starts, and at any other
character that is not blank a run that ends before the next blank. -/
inductive Divides : List Char → List (List Char) → Prop where
  | nil : Divides [] []
  | blank {c : Char} {cs : List Char} {ts : List (List Char)} (hc : Text.isBlank c = true)
      (hrest : Divides cs ts) : Divides (c :: cs) ts
  | phrase {s rest : List Char} {ts : List (List Char)} (hs : '"' ∉ s) (hrest : Divides rest ts) :
      Divides (quoted s ++ rest) (quoted s :: ts)
  | run {w rest : List Char} {ts : List (List Char)} (hne : w ≠ [])
      (hsolid : ∀ c ∈ w, Text.isBlank c = false) (hend : ∀ c ∈ rest.head?, Text.isBlank c = true)
      (hopen : w.head? = some '"' → '"' ∉ w.tail ++ rest) (hrest : Divides rest ts) :
      Divides (w ++ rest) (w :: ts)

private theorem go_found (state : TermState) (found : List (List Char)) (cs : List Char) :
    terms.go state found cs = found.reverse ++ terms.go state [] cs := by
  induction cs generalizing state found with
  | nil => cases state <;> simp [terms.go]
  | cons c cs ih =>
    cases state with
    | between =>
      simp only [terms.go]
      split_ifs <;> exact ih _ _
    | inWord done =>
      simp only [terms.go]
      split_ifs
      · rw [ih, ih _ [_]]
        simp
      · exact ih _ _
    | inQuotes done =>
      simp only [terms.go]
      split_ifs
      · rw [ih, ih _ [_]]
        simp
      · exact ih _ _

theorem terms_cons_blank (hc : isBlank c) (cs : List Char) :
    terms (c :: cs) = terms cs := by
  simp [terms, terms.go, hc]

private theorem go_inQuotes (done s rest : List Char) (hs : '"' ∉ s) :
    terms.go (.inQuotes done) [] (s ++ '"' :: rest) =
      (done.reverse ++ s ++ ['"']) :: terms rest := by
  induction s generalizing done with
  | nil =>
    simp only [nil_append, terms.go, beq_self_eq_true, if_true]
    rw [go_found]
    simp [terms]
  | cons c s ih =>
    obtain ⟨hc, hs⟩ := ne_and_not_mem_of_not_mem_cons hs
    simp only [cons_append, terms.go, beq_iff_eq, Ne.symm hc, if_false]
    rw [ih (c :: done) hs]
    simp

private theorem go_inWord (done w rest : List Char) (hsolid : ∀ c ∈ w, isBlank c = false)
    (hend : ∀ c ∈ rest.head?, isBlank c) :
    terms.go (.inWord done) [] (w ++ rest) = (done.reverse ++ w) :: terms rest := by
  induction w generalizing done with
  | nil =>
    cases rest with
    | nil => simp [terms, terms.go]
    | cons c rest =>
      have hc : isBlank c := hend c rfl
      simp only [nil_append, terms.go, hc, if_true]
      rw [go_found, terms_cons_blank hc]
      simp [terms]
  | cons c w ih =>
    obtain ⟨hc, hsolid⟩ := forall_mem_cons.mp hsolid
    simp only [cons_append, terms.go, hc, Bool.false_eq_true, if_false]
    rw [ih (c :: done) hsolid]
    simp

theorem terms_phrase_append {s : List Char} (hs : '"' ∉ s) (rest : List Char) :
    terms (quoted s ++ rest) = quoted s :: terms rest := by
  have hblank : isBlank '"' = false := by decide
  simp only [quoted, cons_append, append_assoc, nil_append, terms, terms.go, hblank]
  rw [if_neg Bool.false_ne_true, if_pos (by simp), go_inQuotes _ _ _ hs]
  simp [terms]

theorem terms_run_append {rest : List Char} (hne : w ≠ []) (hsolid : ∀ c ∈ w, isBlank c = false)
    (hend : ∀ c ∈ rest.head?, isBlank c) (hopen : w.head? = some '"' → '"' ∉ w.tail ++ rest) :
    terms (w ++ rest) = w :: terms rest := by
  obtain ⟨c, w, rfl⟩ := exists_cons_of_ne_nil hne
  obtain ⟨hc, hsolid⟩ := forall_mem_cons.mp hsolid
  have hstart : ¬ ((c == '"' && (w ++ rest).contains '"') = true) := by
    rw [Bool.and_eq_true, beq_iff_eq, contains_iff_mem]
    rintro ⟨rfl, hmem⟩
    exact hopen rfl hmem
  simp only [cons_append, terms, terms.go, hc]
  rw [if_neg Bool.false_ne_true, if_neg hstart, go_inWord _ _ _ hsolid hend]
  simp [terms]

theorem Divides.terms_eq (h : Divides cs ts) : terms cs = ts := by
  induction h with
  | nil => rfl
  | blank hc _ ih => rw [terms_cons_blank hc, ih]
  | phrase hs _ ih => rw [terms_phrase_append hs, ih]
  | run hne hsolid hend hopen _ ih => rw [terms_run_append hne hsolid hend hopen, ih]

private theorem exists_solid_append (cs : List Char) :
    ∃ w rest, cs = w ++ rest ∧ (∀ c ∈ w, isBlank c = false) ∧
      ∀ c ∈ rest.head?, isBlank c := by
  induction cs with
  | nil => exact ⟨[], [], rfl, by simp, by simp⟩
  | cons c cs ih =>
    cases hc : isBlank c with
    | true => exact ⟨[], c :: cs, rfl, by simp, by simpa using hc⟩
    | false =>
      obtain ⟨w, rest, rfl, hsolid, hend⟩ := ih
      exact ⟨c :: w, rest, rfl, forall_mem_cons.mpr ⟨hc, hsolid⟩, hend⟩

theorem divides_terms (cs : List Char) : Divides cs (terms cs) := by
  suffices h : ∃ ts, Divides cs ts by
    obtain ⟨ts, hts⟩ := h
    rw [hts.terms_eq]
    exact hts
  induction hlength : cs.length using Nat.strongRecOn generalizing cs with
  | ind n ih =>
    subst hlength
    cases cs with
    | nil => exact ⟨[], .nil⟩
    | cons c cs =>
      cases hc : isBlank c with
      | true =>
        obtain ⟨ts, hts⟩ := ih _ (by simp) cs rfl
        exact ⟨ts, .blank hc hts⟩
      | false =>
        by_cases hquote : c = '"' ∧ '"' ∈ cs
        · obtain ⟨rfl, hmem⟩ := hquote
          obtain ⟨s, rest, rfl, hs⟩ := eq_append_cons_of_mem hmem
          have hshort : rest.length < ('"' :: (s ++ '"' :: rest)).length := by
            simp only [length_cons, length_append]
            omega
          obtain ⟨ts, hts⟩ := ih _ hshort rest rfl
          exact ⟨quoted s :: ts, by simpa [quoted] using Divides.phrase hs hts⟩
        · obtain ⟨w, rest, rfl, hsolid, hend⟩ := exists_solid_append cs
          have hshort : rest.length < (c :: (w ++ rest)).length := by
            simp only [length_cons, length_append]
            omega
          obtain ⟨ts, hts⟩ := ih _ hshort rest rfl
          refine ⟨(c :: w) :: ts, Divides.run (w := c :: w) (by simp) ?_ hend ?_ hts⟩
          · exact forall_mem_cons.mpr ⟨hc, hsolid⟩
          · intro hhead hmem
            exact hquote ⟨by simpa using hhead, hmem⟩

/-- A term: a phrase in quotes, or a run without blanks. A quote at the front of a run is its only
one. -/
inductive IsTerm : List Char → Prop where
  | phrase {s : List Char} (hs : '"' ∉ s) : IsTerm (quoted s)
  | run {w : List Char} (hne : w ≠ []) (hsolid : ∀ c ∈ w, Text.isBlank c = false)
      (hlone : w.head? = some '"' → '"' ∉ w.tail) : IsTerm w

/-- Whether a term starts with a quote that it does not close. -/
def opensQuote (t : List Char) : Bool :=
  t.head? == some '"' && !t.tail.contains '"'

theorem opensQuote_iff : opensQuote t ↔ t.head? = some '"' ∧ '"' ∉ t.tail := by
  simp [opensQuote]

theorem opensQuote_quoted (s : List Char) : opensQuote (quoted s) = false := by
  simp [opensQuote, quoted]

/-- Terms that can follow each other: after a quote that is left open there is none. -/
structure AreTerms (ts : List (List Char)) : Prop where
  each : ∀ t ∈ ts, IsTerm t
  closed : ts.Pairwise fun t u => opensQuote t = true → '"' ∉ u

theorem Divides.mem_of_mem (h : Divides cs ts) (ht : t ∈ ts) (hc : c ∈ t) : c ∈ cs := by
  induction h with
  | nil => simp at ht
  | blank _ _ ih => exact mem_cons_of_mem _ (ih ht)
  | phrase _ _ ih =>
    rcases mem_cons.mp ht with rfl | ht
    · exact mem_append_left _ hc
    · exact mem_append_right _ (ih ht)
  | run _ _ _ _ _ ih =>
    rcases mem_cons.mp ht with rfl | ht
    · exact mem_append_left _ hc
    · exact mem_append_right _ (ih ht)

theorem Divides.exists_term (h : Divides cs ts) (hc : c ∈ cs) (hsolid : isBlank c = false) :
    ∃ t ∈ ts, c ∈ t := by
  induction h with
  | nil => simp at hc
  | blank hblank _ ih =>
    rcases mem_cons.mp hc with rfl | hc
    · simp [hblank] at hsolid
    · exact ih hc
  | phrase _ _ ih | run _ _ _ _ _ ih =>
    rcases mem_append.mp hc with hc | hc
    · exact ⟨_, mem_cons_self, hc⟩
    · obtain ⟨t, ht, hmem⟩ := ih hc
      exact ⟨t, mem_cons_of_mem _ ht, hmem⟩

theorem Divides.areTerms (h : Divides cs ts) : AreTerms ts := by
  induction h with
  | nil => exact ⟨by simp, .nil⟩
  | blank _ _ ih => exact ih
  | phrase hs _ ih =>
    refine ⟨forall_mem_cons.mpr ⟨.phrase hs, ih.each⟩, pairwise_cons.mpr ⟨?_, ih.closed⟩⟩
    intro u _ hopens
    simp [opensQuote_quoted] at hopens
  | run hne hsolid _ hopen hrest ih =>
    refine ⟨forall_mem_cons.mpr ⟨.run hne hsolid ?_, ih.each⟩,
      pairwise_cons.mpr ⟨?_, ih.closed⟩⟩
    · exact fun hhead hmem => hopen hhead (mem_append_left _ hmem)
    · intro u hu hopens hmem
      exact hopen (opensQuote_iff.mp hopens).1
        (mem_append_right _ (hrest.mem_of_mem hu hmem))

theorem areTerms_terms (cs : List Char) : AreTerms (terms cs) :=
  (divides_terms cs).areTerms

/-- Terms written one after another, with a space before each. -/
def written (ts : List (List Char)) : List Char :=
  ts.flatMap (' ' :: ·)

@[simp] theorem written_nil : written [] = [] := rfl

@[simp] theorem written_cons (t : List Char) (ts : List (List Char)) :
    written (t :: ts) = ' ' :: (t ++ written ts) := rfl

theorem written_eq_cons (hne : ts ≠ []) : written ts = ' ' :: [' '].intercalate ts := by
  induction ts with
  | nil => exact absurd rfl hne
  | cons t ts ih =>
    cases ts with
    | nil => simp
    | cons u ts =>
      rw [written_cons, ih (by simp), intercalate_cons_cons]
      simp

theorem isBlank_head_written (ts : List (List Char)) :
    ∀ c ∈ (written ts).head?, isBlank c := by
  cases ts with
  | nil => simp
  | cons t ts => simp; decide

theorem not_mem_written (hts : ∀ t ∈ ts, '"' ∉ t) : '"' ∉ written ts := by
  simp only [written, mem_flatMap, mem_cons, not_exists, not_and, not_or]
  exact fun t ht => ⟨by decide, hts t ht⟩

theorem AreTerms.divides_written (h : AreTerms ts) : Divides (written ts) ts := by
  have hspace : isBlank ' ' := by decide
  induction ts with
  | nil => exact .nil
  | cons t ts ih =>
    obtain ⟨ht, hts⟩ := forall_mem_cons.mp h.each
    obtain ⟨hopen, hclosed⟩ := pairwise_cons.mp h.closed
    have hrest := ih ⟨hts, hclosed⟩
    refine .blank hspace ?_
    cases ht with
    | phrase hs => exact .phrase hs hrest
    | run hne hsolid hlone =>
      refine .run hne hsolid (isBlank_head_written ts) ?_ hrest
      intro hhead hmem
      have hopens : opensQuote t := opensQuote_iff.mpr ⟨hhead, hlone hhead⟩
      rcases mem_append.mp hmem with hmem | hmem
      · exact hlone hhead hmem
      · exact not_mem_written (fun u hu => hopen u hu hopens) hmem

theorem AreTerms.terms_written (h : AreTerms ts) : terms (written ts) = ts :=
  h.divides_written.terms_eq

theorem terms_eq_nil_iff : terms cs = [] ↔ ∀ c ∈ cs, isBlank c := by
  constructor
  · intro hnone
    have hdivides := divides_terms cs
    rw [hnone] at hdivides
    clear hnone
    generalize hts : ([] : List (List Char)) = ts at hdivides
    induction hdivides with
    | nil => simp
    | blank hc _ ih => exact forall_mem_cons.mpr ⟨hc, ih hts⟩
    | phrase => exact nomatch hts
    | run => exact nomatch hts
  · intro hall
    induction cs with
    | nil => rfl
    | cons c cs ih =>
      obtain ⟨hc, hall⟩ := forall_mem_cons.mp hall
      rw [terms_cons_blank hc, ih hall]

theorem terms_eq_nil_iff_strip {q : String} : terms q.toList = [] ↔ strip q = "" := by
  rw [strip, String.ofList_eq_empty_iff, trim, trimBy_eq_nil_iff, terms_eq_nil_iff]

theorem terms_run (hne : w ≠ []) (hsolid : ∀ c ∈ w, isBlank c = false)
    (hhead : w.head? ≠ some '"') : terms w = [w] := by
  have hrun : terms (w ++ []) = w :: terms [] :=
    terms_run_append hne hsolid (by simp) fun hquote _ => hhead hquote
  rw [append_nil] at hrun
  exact hrun

def doubled (cs : List Char) : List Char :=
  cs.flatMap fun c => if c == '"' then ['"', '"'] else [c]

@[simp] theorem doubled_nil : doubled [] = [] :=
  rfl

@[simp] theorem doubled_cons_quote (cs : List Char) :
    doubled ('"' :: cs) = '"' :: '"' :: doubled cs :=
  rfl

theorem doubled_cons_of_ne (hc : c ≠ '"') (cs : List Char) :
    doubled (c :: cs) = c :: doubled cs := by
  simp [doubled, hc]

theorem doubled_eq_self (hcs : '"' ∉ cs) : doubled cs = cs := by
  induction cs with
  | nil => rfl
  | cons c cs ih =>
    obtain ⟨hc, hcs⟩ := ne_and_not_mem_of_not_mem_cons hcs
    rw [doubled_cons_of_ne (Ne.symm hc), ih hcs]

end JarAtlas.Query
