import JarAtlas.FullText.Ranking
import JarAtlas.Proofs.FullText.Lexing

/-!
Which rows a search finds, apart from their order. A query that can be read finds every row that it
asks for once, whatever the ranks are; any other query is refused with what is wrong with it.
-/

namespace JarAtlas.FullText

namespace Scheme

variable {scheme : Scheme} {query : List Char}

def problem? (scheme : Scheme) (query : List Char) : Option QueryError :=
  match query with
  | '*' :: rest =>
    if isKnownDirective (directive rest) then none else some (.unknownDirective (directive rest))
  | query =>
    match scheme.parse query with
    | .ok _ => none
    | .error e => some e

/-- Whether a query asks for a row with these tokens; a directive asks for none. -/
def asksFor (scheme : Scheme) (query : List Char) (doc : Doc) : Bool :=
  match query with
  | '*' :: _ => false
  | query =>
    match scheme.parse query with
    | .ok e => e.accepts doc
    | .error _ => false

def doc (scheme : Scheme) (texts : List (List Char)) : Doc :=
  texts.map scheme.tokenizer.tokens

theorem asksFor_of_parse (hstar : query.head? ≠ some '*') {e : Expr}
    (hparse : scheme.parse query = .ok e) (doc : Doc) :
    scheme.asksFor query doc = e.accepts doc := by
  unfold asksFor
  split
  · simp at hstar
  · simp only [hparse]

theorem problem?_of_parse (hstar : query.head? ≠ some '*') {e : Expr}
    (hparse : scheme.parse query = .ok e) : scheme.problem? query = none := by
  unfold problem?
  split
  · simp at hstar
  · simp only [hparse]

theorem problem?_of_parse_error (hstar : query.head? ≠ some '*') {e : QueryError}
    (hparse : scheme.parse query = .error e) : scheme.problem? query = some e := by
  unfold problem?
  split
  · simp at hstar
  · simp only [hparse]

theorem exists_parse_of_asksFor {doc : Doc} (hasks : scheme.asksFor query doc) :
    ∃ e, scheme.parse query = .ok e ∧ e.accepts doc := by
  unfold asksFor at hasks
  split at hasks
  · exact nomatch hasks
  · split at hasks
    · next e hparse => exact ⟨e, hparse, hasks⟩
    · exact nomatch hasks

theorem problem?_eq_none_of_asksFor {doc : Doc} (hasks : scheme.asksFor query doc) :
    scheme.problem? query = none := by
  obtain ⟨e, hparse, -⟩ := exists_parse_of_asksFor hasks
  refine problem?_of_parse ?_ hparse
  intro hhead
  obtain ⟨rest, rfl⟩ := List.head?_eq_some_iff.mp hhead
  exact nomatch hasks

end Scheme

variable {α : Type}

private theorem rows_hits {β : Type} (accepts : Doc → Bool) {f : Entry α × Nat → Option (α × β)}
    (hf : ∀ entry i, (f (entry, i)).map Prod.fst =
      if accepts entry.doc then some entry.row else none)
    (entries : List (Entry α)) (n : Nat) :
    ((entries.zipIdx n).filterMap f).map Prod.fst =
      (entries.filter fun entry => accepts entry.doc).map Entry.row := by
  rw [List.map_filterMap]
  induction entries generalizing n with
  | nil => rfl
  | cons entry entries ih =>
    rw [List.zipIdx_cons, List.filterMap_cons, List.filter_cons, hf, ih]
    cases accepts entry.doc <;> rfl

theorem Expr.ranked_perm (e : Expr) (entries : List (Entry α)) :
    (e.ranked entries).Perm ((entries.filter fun entry => e.accepts entry.doc).map Entry.row) := by
  unfold Expr.ranked
  refine ((List.mergeSort_perm _ _).map Prod.fst).trans (List.Perm.of_eq ?_)
  refine rows_hits (fun doc => e.accepts doc) (fun entry i => ?_) entries 1
  dsimp only
  split <;> rfl

theorem search_of_problem {scheme : Scheme} {query : List Char} {e : QueryError}
    (hproblem : scheme.problem? query = some e) (texts : α → List (List Char)) (rows : List α) :
    search scheme texts query rows = .error e := by
  unfold Scheme.problem? at hproblem
  unfold search
  split at hproblem
  · next rest =>
    split at hproblem
    · simp at hproblem
    · next hunknown =>
      cases hproblem
      simp only [if_neg hunknown]
  · split at hproblem
    · simp at hproblem
    · next e' hparse =>
      cases hproblem
      simp only [hparse]
      rfl

theorem search_of_problem?_eq_none {scheme : Scheme} {query : List Char}
    (hnone : scheme.problem? query = none) (texts : α → List (List Char)) (rows : List α) :
    ∃ found, search scheme texts query rows = .ok found ∧
      found.Perm (rows.filter fun row => scheme.asksFor query (scheme.doc (texts row))) := by
  unfold Scheme.problem? at hnone
  unfold search
  split at hnone
  · next rest =>
    split at hnone
    · next hknown =>
      refine ⟨[], by simp only [if_pos hknown], ?_⟩
      simp [Scheme.asksFor]
    · simp at hnone
  · next hstar =>
    split at hnone
    · next e hparse =>
      simp only [hparse]
      refine ⟨_, rfl, (e.ranked_perm _).trans (List.Perm.of_eq ?_)⟩
      have hfront : query.head? ≠ some '*' := by
        rintro hhead
        obtain ⟨rest, rfl⟩ := List.head?_eq_some_iff.mp hhead
        exact hstar rest rfl
      simp only [Scheme.asksFor_of_parse hfront hparse, List.filter_map, List.map_map]
      exact List.map_id _
    · simp at hnone

/-! ### Words of a text and where they stand in a row -/

open List

variable {s : Char} {tokens : List Token} {doc : Doc} {n : Int} {columns : Option (List Nat)}

/-- A character that ends the word before it and belongs to none. -/
def isSeparator (c : Char) : Bool :=
  !isTokenChar c && !isDroppedMark c

theorem wordTokens_go_done (word : Token) (done : List Token) (cs : List Char) :
    wordTokens.go word done cs = done.reverse ++ wordTokens.go word [] cs := by
  induction cs generalizing word done with
  | nil =>
    unfold wordTokens.go
    cases word <;> simp
  | cons c cs ih =>
    unfold wordTokens.go
    split
    · exact ih _ _
    · split
      · exact ih _ _
      · split
        · exact ih _ _
        · rw [ih, ih [] [word.reverse], reverse_cons, append_assoc]
          rfl

theorem wordTokens_go_append (hs : isSeparator s) (word : Token) (a b : List Char) :
    wordTokens.go word [] (a ++ s :: b) = wordTokens.go word [] a ++ wordTokens b := by
  induction a generalizing word with
  | nil =>
    simp only [isSeparator, Bool.and_eq_true, Bool.not_eq_true'] at hs
    rw [nil_append, wordTokens.go, wordTokens.go]
    simp only [hs.1, hs.2, Bool.false_eq_true, if_false]
    cases word with
    | nil => rfl
    | cons c word =>
      simp only [isEmpty_cons, Bool.false_eq_true, if_false]
      exact wordTokens_go_done _ _ _
  | cons c a ih =>
    rw [cons_append, wordTokens.go, wordTokens.go]
    split
    · exact ih _
    · split
      · exact ih _
      · split
        · exact ih _
        · rw [wordTokens_go_done, ih, wordTokens_go_done [] [word.reverse] a, append_assoc]

theorem wordTokens_append (hs : isSeparator s) (a b : List Char) :
    wordTokens (a ++ s :: b) = wordTokens a ++ wordTokens b :=
  wordTokens_go_append hs [] a b

theorem wordTokens_concat (hs : isSeparator s) (a : List Char) :
    wordTokens (a ++ [s]) = wordTokens a := by
  rw [wordTokens_append hs]
  exact append_nil _

/-- The phrase that asks for these very words. -/
def exactly (tokens : List Token) : Phrase :=
  tokens.map fun token => { token := token }

theorem setLastPrefix_exactly (tokens : List Token) :
    setLastPrefix false (exactly tokens) = exactly tokens := by
  have hback := reverse_reverse (exactly tokens)
  unfold setLastPrefix
  cases hreverse : (exactly tokens).reverse with
  | nil => rw [← hback, hreverse]; rfl
  | cons last before =>
    have hlast : last ∈ exactly tokens := by
      rw [← mem_reverse, hreverse]
      exact mem_cons_self
    obtain ⟨token, -, rfl⟩ := mem_map.mp hlast
    rw [← hback, hreverse]

theorem extendPhrase_nil (scheme : Scheme) (raw : List Char) :
    scheme.extendPhrase [] raw false = exactly (scheme.tokenizer.tokens (unquote raw)) :=
  setLastPrefix_exactly _

theorem atStart_exactly (tokens : List Token) :
    ((exactly tokens).head?.any fun t => t.atStart) = false := by
  cases tokens <;> rfl

theorem standsAt_exactly_iff {column : List Token} :
    standsAt (exactly tokens) column ↔ tokens <+: column := by
  induction tokens generalizing column with
  | nil => simp [exactly, standsAt]
  | cons token tokens ih =>
    cases column with
    | nil => simp [exactly, standsAt]
    | cons first column =>
      rw [cons_prefix_cons, ← ih]
      simp [exactly, standsAt, Term.accepts]

/-- A phrase that may stand anywhere has a place exactly when it stands at the front of what is left
of the column at some point. -/
theorem placesFrom_ne_nil_iff {p : Phrase} (hfree : (p.head?.any fun t => t.atStart) = false)
    (i : Nat) (found : List Nat) (column : List Token) :
    placesFrom p i found column ≠ [] ↔
      found ≠ [] ∨ ∃ rest, rest ≠ [] ∧ rest <:+ column ∧ standsAt p rest := by
  induction column generalizing i found with
  | nil =>
    simp only [placesFrom, suffix_nil, ne_eq, reverse_eq_nil_iff]
    constructor
    · exact Or.inl
    · rintro (hfound | ⟨rest, hne, hrest, -⟩)
      · exact hfound
      · exact absurd hrest hne
  | cons token column ih =>
    simp only [placesFrom, hfree, Bool.not_false, Bool.or_true, Bool.and_true]
    rw [ih]
    cases hstands : standsAt p (token :: column) with
    | true =>
      simp only [if_true, ne_eq, reduceCtorEq, not_false_eq_true, true_or, true_iff]
      exact .inr ⟨_, by simp, suffix_refl _, hstands⟩
    | false =>
      simp only [Bool.false_eq_true, if_false, suffix_cons_iff]
      refine or_congr Iff.rfl (exists_congr fun rest => and_congr Iff.rfl ?_)
      constructor
      · rintro ⟨hrest, hat⟩
        exact ⟨.inr hrest, hat⟩
      · rintro ⟨rfl | hrest, hat⟩
        · rw [hstands] at hat
          exact nomatch hat
        · exact ⟨hrest, hat⟩

theorem placesFrom_exactly_ne_nil_iff (htokens : tokens ≠ []) (column : List Token) :
    placesFrom (exactly tokens) 0 [] column ≠ [] ↔ tokens <:+: column := by
  rw [placesFrom_ne_nil_iff (atStart_exactly tokens), infix_iff_prefix_suffix]
  simp only [ne_eq, not_true_eq_false, false_or, standsAt_exactly_iff]
  refine exists_congr fun rest => ?_
  constructor
  · rintro ⟨-, hsuffix, hfront⟩
    exact ⟨hfront, hsuffix⟩
  · rintro ⟨hfront, hsuffix⟩
    refine ⟨?_, hsuffix, hfront⟩
    rintro rfl
    exact htokens (prefix_nil.mp hfront)

/-- Some words follow each other in a column that counts. -/
def Mentions (doc : Doc) (columns : Option (List Nat)) (tokens : List Token) : Prop :=
  tokens ≠ [] ∧ ∃ i column, doc[i]? = some column ∧ columns.all (·.contains i) = true ∧
    tokens <:+: column

theorem places_exactly_ne_nil_iff :
    places (exactly tokens) columns doc ≠ [] ↔ Mentions doc columns tokens := by
  by_cases htokens : tokens = []
  · subst htokens
    simp [places, exactly, Mentions]
  · have hphrase : (exactly tokens).isEmpty = false := by
      cases tokens with
      | nil => exact absurd rfl htokens
      | cons _ _ => rfl
    have hcolumn (column : List Token) (i : Nat) :
        (if columns.all (·.contains i) then
            (placesFrom (exactly tokens) 0 [] column).map (i * columnSpan + ·) else []) ≠ [] ↔
          columns.all (·.contains i) ∧ tokens <:+: column := by
      rw [← placesFrom_exactly_ne_nil_iff htokens]
      split <;> simp_all
    simp only [places, hphrase, Bool.false_eq_true, if_false, ne_eq, flatMap_eq_nil_iff,
      Prod.forall, mem_zipIdx_iff_getElem?, Mentions, htokens, not_false_eq_true, true_and]
    push Not
    constructor
    · rintro ⟨column, i, hget, hne⟩
      exact ⟨i, column, hget, (hcolumn column i).mp hne⟩
    · rintro ⟨i, column, hget, hmatch⟩
      exact ⟨column, i, hget, (hcolumn column i).mpr hmatch⟩

/-- A group of one phrase of whole words matches a row exactly when the words follow each other in
one of the columns that count. -/
theorem accepts_group_exactly_iff :
    (Expr.group ⟨[exactly tokens], n, columns⟩).accepts doc ↔
      Mentions doc columns tokens := by
  rw [← places_exactly_ne_nil_iff]
  simp [Expr.accepts, Group.accepts]

theorem accepts_groupOf_exactly_iff :
    (groupOf [exactly tokens] n).accepts doc ↔ Mentions doc none tokens := by
  cases tokens with
  | nil => simp [groupOf, exactly, Expr.accepts, Mentions]
  | cons token tokens => exact accepts_group_exactly_iff

theorem accepts_restrict_groupOf_exactly_iff {columns : List Nat} :
    ((groupOf [exactly tokens] n).restrict columns).accepts doc ↔
      Mentions doc (some columns) tokens := by
  cases tokens with
  | nil => simp [groupOf, exactly, Expr.restrict, Expr.accepts, Mentions]
  | cons token tokens => exact accepts_group_exactly_iff

/-!
What queries of simple shapes ask for: one text, two texts joined by AND, and two texts each kept to
a column. Words that are no operators can always be read. A query with a comma, or a place where no
lexeme can start, after words alone is refused.
-/

open Scheme

variable {query raw : List Char} {scheme : Scheme}

def textQuery (scheme : Scheme) (raw : List Char) : Expr :=
  groupOf [exactly (scheme.tokenizer.tokens (unquote raw))] defaultDistance

theorem groupOf_extendPhrase (scheme : Scheme) (raw : List Char) :
    groupOf [scheme.extendPhrase [] raw false] defaultDistance = textQuery scheme raw := by
  rw [extendPhrase_nil, textQuery]

theorem parse_text (hlexemes : lexemes query = [.text raw, .stop]) :
    scheme.parse query = .ok (textQuery scheme raw) := by
  rw [parse, hlexemes, ← groupOf_extendPhrase]
  rfl

theorem parse_broken {word : List Lexeme} {err : QueryError}
    (hword : word = [] ∨ ∃ w, word = [wordLexeme w])
    (hlexemes : lexemes query = .text raw :: (word ++ [.broken err])) :
    scheme.parse query = .error err := by
  rw [parse, hlexemes]
  rcases hword with rfl | ⟨w, rfl⟩
  · rfl
  · unfold wordLexeme
    split_ifs <;> rfl

theorem heights_textQuery (scheme : Scheme) (raw : List Char) :
    (textQuery scheme raw).heights = (1, 1, 0) := by
  unfold textQuery groupOf
  split <;> rfl

theorem heights_restrict_textQuery (scheme : Scheme) (raw : List Char) (columns : List Nat) :
    ((textQuery scheme raw).restrict columns).heights = (1, 1, 0) := by
  unfold textQuery groupOf
  split <;> rfl

def endsOperand : Lexeme → Bool
  | .andWord | .orWord | .notWord | .stop => true
  | .mark c => c == ')'
  | _ => false

section Levels

variable {operator l : Lexeme} {combine : Expr → Expr → Expr} {operand : OperandReader}
  {ls rest rest₂ : List Lexeme} {e e₂ : Expr} {room : Nat}

theorem chain_of_ne (hl : l ≠ operator) (room fuel : Nat) :
    chain operator combine operand room fuel e (l :: rest) = .ok (e, l :: rest) := by
  cases fuel with
  | zero => rfl
  | succ fuel => simp [chain, hl]

theorem level_of_ne (hread : operand room ls = .ok (e, l :: rest)) (hl : l ≠ operator) :
    level operator combine operand room ls = .ok (e, l :: rest) := by
  unfold level
  rw [hread]
  exact chain_of_ne hl _ _

theorem level_of_error {err : QueryError} (hread : operand room ls = .error err) :
    level operator combine operand room ls = .error err := by
  unfold level
  rw [hread]
  rfl

theorem level_of_eq (room : Nat) (hread : operand (room + 2) ls = .ok (e, operator :: rest))
    (hnext : operand room rest = .ok (e₂, l :: rest₂)) (hl : l ≠ operator) :
    level operator combine operand (room + 2) ls = do
      checkHeight (combine e e₂) (l :: rest₂)
      return (combine e e₂, l :: rest₂) := by
  have hchain : level operator combine operand (room + 2) ls =
      chain operator combine operand (room + 2) (rest.length + 1) e (operator :: rest) := by
    unfold level
    rw [hread]
    rfl
  have hhold : hold 2 (room + 2) = .ok () := by simp [hold]
  rw [hchain, chain]
  simp only [beq_self_eq_true, if_true, hhold, Nat.add_sub_cancel, hnext, bind, Except.bind,
    chain_of_ne hl]
  rfl

end Levels

variable (scheme : Scheme) (inner : OperandReader) {l : Lexeme} {i : Nat} {e : Expr}
  {a b : List Char}

theorem operand_text (hl : endsOperand l) (room : Nat) (raw : List Char) (rest : List Lexeme) :
    scheme.operand inner (room + 2) (.text raw :: l :: rest) =
      .ok (textQuery scheme raw, l :: rest) := by
  rw [← groupOf_extendPhrase]
  cases l with
  | mark c =>
    obtain rfl : c = ')' := by simpa [endsOperand] using hl
    rfl
  | text | broken => exact nomatch hl
  | andWord | orWord | notWord | stop => rfl

theorem operand_columnText (hl : endsOperand l) (room : Nat) {name : List Char}
    (hcolumn : scheme.column name [] = .ok i) (rest : List Lexeme) :
    scheme.operand inner (room + 4) (.text name :: .mark ':' :: .text raw :: l :: rest) =
      .ok ((textQuery scheme raw).restrict [i], l :: rest) := by
  rw [← groupOf_extendPhrase]
  have hfilter :
      scheme.columnFilter (room + 4) (.text name :: .mark ':' :: .text raw :: l :: rest) =
      .ok (some [i], .text raw :: l :: rest) := by
    simp [columnFilter, hcolumn, hold]
    rfl
  cases l with
  | mark c =>
    obtain rfl : c = ')' := by simpa [endsOperand] using hl
    simp only [operand, hfilter]
    rfl
  | text | broken => exact nomatch hl
  | andWord | orWord | notWord | stop =>
    simp only [operand, hfilter]
    rfl

theorem parse_eq_of_expr {scheme : Scheme} {ls : List Lexeme} (hlexemes : lexemes query = ls)
    (hread : scheme.expr (ls.length + 1) capacity ls = .ok (e, [.stop])) :
    scheme.parse query = .ok e := by
  rw [parse, hlexemes, hread]
  rfl

theorem checkHeight_both {l r : Expr} (hl : l.heights = (1, 1, 0)) (hr : r.heights = (1, 1, 0))
    (rest : List Lexeme) : checkHeight (.both l r) rest = .ok () := by
  have hheight : (Expr.both l r).height = 1 := by
    simp [Expr.height, Expr.heights, hl, hr]
  rw [checkHeight, hheight]
  rfl

theorem parse_both {scheme : Scheme}
    (hlexemes : lexemes query = [.text a, .andWord, .text b, .stop]) :
    scheme.parse query = .ok (.both (textQuery scheme a) (textQuery scheme b)) := by
  refine parse_eq_of_expr hlexemes ?_
  refine level_of_ne ?_ (by decide)
  refine (level_of_eq 97 (level_of_ne (operand_text scheme _ rfl _ a _) (by decide))
    (level_of_ne (operand_text scheme _ rfl _ b _) (by decide)) (by decide)).trans ?_
  rw [checkHeight_both (heights_textQuery _ _) (heights_textQuery _ _)]
  rfl

/-- Two texts joined by AND, each kept to a column, in brackets. -/
theorem parse_bracketed_both {scheme : Scheme} {name₁ name₂ : List Char} {j : Nat}
    (hi : scheme.column name₁ [] = .ok i) (hj : scheme.column name₂ [] = .ok j)
    (hlexemes : lexemes query = [.mark '(', .text name₁, .mark ':', .text a, .andWord,
      .text name₂, .mark ':', .text b, .mark ')', .stop]) :
    scheme.parse query =
      .ok (.both ((textQuery scheme a).restrict [i]) ((textQuery scheme b).restrict [j])) := by
  refine parse_eq_of_expr hlexemes ?_
  refine level_of_ne (level_of_ne (level_of_ne ?_ (by decide)) (by decide)) (by decide)
  have hinner (fuel : Nat) : scheme.expr (fuel + 1) 98 [.text name₁, .mark ':', .text a, .andWord,
      .text name₂, .mark ':', .text b, .mark ')', .stop] =
      .ok (.both ((textQuery scheme a).restrict [i]) ((textQuery scheme b).restrict [j]),
        [.mark ')', .stop]) := by
    refine level_of_ne ?_ (by decide)
    refine (level_of_eq 96 (level_of_ne (operand_columnText scheme _ rfl _ hi _) (by decide))
      (level_of_ne (operand_columnText scheme _ rfl _ hj _) (by decide)) (by decide)).trans ?_
    rw [checkHeight_both (heights_restrict_textQuery _ _ _) (heights_restrict_textQuery _ _ _)]
    rfl
  show bracketed (scheme.expr 10) 1 99 _ = _
  unfold bracketed
  rw [hinner]
  rfl

theorem eq_both_of_parse {scheme : Scheme} {front : List Lexeme} (hlexemes : lexemes query =
      .mark '(' :: (front ++ .mark ')' :: [.andWord, .text raw, .stop]))
    (hfront : .mark ')' ∉ front) (hparse : scheme.parse query = .ok e) :
    ∃ e₁, e = .both e₁ (textQuery scheme raw) := by
  rw [parse, hlexemes] at hparse
  generalize (Lexeme.mark '(' :: (front ++ .mark ')' :: [.andWord, .text raw, .stop])).length = n
    at hparse
  have hread : scheme.operand (scheme.expr n) capacity
      (.mark '(' :: (front ++ .mark ')' :: [.andWord, .text raw, .stop])) =
        bracketed (scheme.expr n) 1 capacity (front ++ .mark ')' :: [.andWord, .text raw, .stop]) :=
    rfl
  cases hbracketed :
      bracketed (scheme.expr n) 1 capacity (front ++ .mark ')' :: [.andWord, .text raw, .stop]) with
  | error err =>
    have hfails : scheme.expr (n + 1) capacity
        (.mark '(' :: (front ++ .mark ')' :: [.andWord, .text raw, .stop])) = .error err :=
      level_of_error (level_of_error (level_of_error (hread.trans hbracketed)))
    rw [hfails] at hparse
    exact nomatch hparse
  | ok found =>
    obtain ⟨e₁, rest⟩ := found
    obtain rfl := eq_of_bracketed (leaves_expr scheme n) hfront (by simp) hbracketed
    have hnot : level .notWord .without (scheme.operand (scheme.expr n)) capacity
        (.mark '(' :: (front ++ .mark ')' :: [.andWord, .text raw, .stop])) =
          .ok (e₁, [.andWord, .text raw, .stop]) :=
      level_of_ne (hread.trans hbracketed) (by decide)
    have hand : level .andWord .both
        (level .notWord .without (scheme.operand (scheme.expr n))) capacity
        (.mark '(' :: (front ++ .mark ')' :: [.andWord, .text raw, .stop])) = do
          checkHeight (.both e₁ (textQuery scheme raw)) [.stop]
          return (.both e₁ (textQuery scheme raw), [.stop]) :=
      level_of_eq 97 hnot (level_of_ne (operand_text scheme _ rfl _ raw _) (by decide))
        (by decide)
    cases hheight : checkHeight (.both e₁ (textQuery scheme raw)) [.stop] with
    | error err =>
      rw [hheight] at hand
      have hfails : scheme.expr (n + 1) capacity
          (.mark '(' :: (front ++ .mark ')' :: [.andWord, .text raw, .stop])) = .error err :=
        level_of_error hand
      rw [hfails] at hparse
      exact nomatch hparse
    | ok _ =>
      rw [hheight] at hand
      have hdone : scheme.expr (n + 1) capacity
          (.mark '(' :: (front ++ .mark ')' :: [.andWord, .text raw, .stop])) =
            .ok (.both e₁ (textQuery scheme raw), [.stop]) :=
        level_of_ne hand (by decide)
      rw [hdone] at hparse
      exact ⟨e₁, (Except.ok.inj hparse).symm⟩

/-! ### Words without quotes -/

theorem parse_of_isBlocked (hblocked : isBlocked (lexemes query)) :
    ∃ e, scheme.parse query = .error e := by
  cases hparse : scheme.parse query with
  | error e => exact ⟨e, rfl⟩
  | ok e =>
    rw [parse] at hparse
    cases hread : scheme.expr ((lexemes query).length + 1) capacity (lexemes query) with
    | error err =>
      rw [hread] at hparse
      cases hparse
    | ok found =>
      have hleft := (leaves_expr scheme _ _ _ _ _ hread).2 trivial hblocked
      rw [hread] at hparse
      simp only [bind, Except.bind] at hparse
      split at hparse
      · next hstop =>
        rw [hstop] at hleft
        cases hleft
      · cases hparse

variable {raws : List (List Char)}

def textLexemes (raws : List (List Char)) : List Lexeme :=
  raws.map .text ++ [.stop]

theorem filteredGroup_textLexemes (room : Nat) (hroom : 2 ≤ room) (raw : List Char)
    (raws : List (List Char)) :
    scheme.filteredGroup room none (textLexemes (raw :: raws)) =
      .ok (textQuery scheme raw, textLexemes raws) := by
  obtain ⟨room, rfl⟩ := Nat.exists_eq_add_of_le' hroom
  rw [← groupOf_extendPhrase]
  cases raws <;> rfl

theorem columnFilter_textLexemes (room : Nat) (raws : List (List Char)) :
    scheme.columnFilter room (textLexemes raws) = .ok (none, textLexemes raws) := by
  cases raws with
  | nil => rfl
  | cons raw raws => cases raws <;> rfl

theorem moreGroups_textLexemes (room : Nat) (hroom : 3 ≤ room) {fuel : Nat}
    (hfuel : raws.length ≤ fuel) (e : Expr) :
    ∃ e', scheme.moreGroups room fuel e (textLexemes raws) = .ok (e', [.stop]) := by
  induction raws generalizing fuel e with
  | nil => cases fuel <;> exact ⟨e, rfl⟩
  | cons raw raws ih =>
    obtain ⟨fuel, rfl⟩ := Nat.exists_eq_add_of_le' (Nat.lt_of_lt_of_le (Nat.zero_lt_succ _) hfuel)
    obtain ⟨e', he'⟩ := ih (Nat.le_of_succ_le_succ hfuel) (e.beside (textQuery scheme raw))
    refine ⟨e', ?_⟩
    have hstarts : startsGroup (textLexemes (raw :: raws)) := rfl
    rw [moreGroups, if_pos hstarts, columnFilter_textLexemes]
    simp only [bind, Except.bind]
    rw [filteredGroup_textLexemes scheme _ (by omega)]
    exact he'

theorem parse_texts (hne : raws ≠ []) (hlexemes : lexemes query = textLexemes raws) :
    ∃ e, scheme.parse query = .ok e := by
  obtain ⟨raw, raws, rfl⟩ := exists_cons_of_ne_nil hne
  have hlength : raws.length ≤ (textLexemes raws).length := by simp [textLexemes]
  obtain ⟨e, he⟩ := moreGroups_textLexemes scheme capacity (by decide) hlength
    (textQuery scheme raw)
  have hoperand (inner : OperandReader) :
      scheme.operand inner capacity (textLexemes (raw :: raws)) = .ok (e, [.stop]) := by
    have hfilter := columnFilter_textLexemes scheme capacity (raw :: raws)
    have hgroup := filteredGroup_textLexemes scheme capacity (by decide) raw raws
    rw [← he]
    unfold operand
    split
    · next hfront => exact nomatch hfront
    · rw [hfilter]
      simp only [bind, Except.bind]
      rw [hgroup]
  refine ⟨e, parse_eq_of_expr hlexemes ?_⟩
  exact level_of_ne (level_of_ne (level_of_ne (hoperand _) (by decide)) (by decide)) (by decide)

end JarAtlas.FullText
