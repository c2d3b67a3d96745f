import JarAtlas.FullText.Parser
import JarAtlas.Proofs.Query.Terms

/-!
The lexemes of a query, piece by piece. Each piece gives its own lexeme whatever follows, as long as
what follows cannot be taken for more of it. A text in quotes stands for itself, its inner quotes
doubled.
-/

open List

namespace JarAtlas.FullText

open LexState

open Query (quoted doubled)

variable {c : Char} {word rest : List Char} {s : List Char}

/-- The lexemes of a text without null characters, from a place where one may start. -/
def lexFrom (cs : List Char) : List Lexeme :=
  lexemes.go .between [] cs

theorem lexemes_eq {cs : List Char} (hnull : ∀ c ∈ cs, c.toNat ≠ 0) :
    lexemes cs = lexFrom cs := by
  have hall : cs.takeWhile (fun c => c.toNat != 0) = cs :=
    takeWhile_eq_self_iff.mpr fun c hc => by simpa using hnull c hc
  rw [lexemes, hall, lexFrom]

private theorem start_found (found : List Lexeme) (c : Char) :
    start found c = match start [] c with
      | .ok (state, new) => .ok (state, new ++ found)
      | .error new => .error (new ++ found) := by
  unfold start
  split_ifs <;> rfl

private theorem next_found (state : LexState) (found : List Lexeme) (c : Char) :
    state.next found c = match state.next [] c with
      | .ok (state, new) => .ok (state, new ++ found)
      | .error new => .error (new ++ found) := by
  cases state with
  | between => exact start_found found c
  | inQuotes done =>
    unfold LexState.next
    dsimp only
    split_ifs <;> rfl
  | afterQuote done =>
    unfold LexState.next
    dsimp only
    split_ifs
    · rfl
    · rw [start_found, start_found [_]]
      cases start [] c <;> simp
  | inWord done =>
    unfold LexState.next
    dsimp only
    split_ifs
    · rfl
    · rw [start_found, start_found [_]]
      cases start [] c <;> simp

theorem lexemes_go_found (state : LexState) (found : List Lexeme) (cs : List Char) :
    lexemes.go state found cs = found.reverse ++ lexemes.go state [] cs := by
  induction cs generalizing state found with
  | nil => cases state <;> simp [lexemes.go]
  | cons c cs ih =>
    rw [lexemes.go, lexemes.go, next_found]
    cases state.next [] c with
    | error new => simp
    | ok step =>
      dsimp only
      rw [ih, ih step.1 step.2, reverse_append, append_assoc]

/-! ### One piece at a time -/

@[simp] theorem lexFrom_nil : lexFrom [] = [.stop] :=
  rfl

theorem lexFrom_blank (hc : isQueryBlank c) (cs : List Char) :
    lexFrom (c :: cs) = lexFrom cs := by
  rw [lexFrom, lexemes.go]
  simp only [LexState.next, start, hc, if_true]
  rfl

theorem lexFrom_mark (hblank : isQueryBlank c = false) (hc : isMark c) (cs : List Char) :
    lexFrom (c :: cs) = .mark c :: lexFrom cs := by
  rw [lexFrom, lexemes.go]
  simp only [LexState.next, start, hblank, hc, Bool.false_eq_true, if_false, if_true]
  exact lexemes_go_found _ _ _

theorem lexFrom_broken (hblank : isQueryBlank c = false) (hmark : isMark c = false)
    (hquote : (c == '"') = false) (hbare : isBareChar c = false) (cs : List Char) :
    lexFrom (c :: cs) = [.broken (.unexpected [c])] := by
  rw [lexFrom, lexemes.go]
  simp only [LexState.next, start, hblank, hmark, hquote, hbare, Bool.false_eq_true, if_false]
  rfl

private theorem lexemes_go_inWord (hword : ∀ c ∈ word, isBareChar c)
    (hend : ∀ c ∈ rest.head?, isBareChar c = false) (done : List Char) :
    lexemes.go (.inWord done) [] (word ++ rest) =
      wordLexeme (done.reverse ++ word) :: lexFrom rest := by
  induction word generalizing done with
  | nil =>
    rw [nil_append, append_nil]
    cases rest with
    | nil => rfl
    | cons c rest =>
      have hbare : isBareChar c = false := hend c rfl
      have hclosed : lexemes.go (.inWord done) [] (c :: rest) =
          lexemes.go .between [wordLexeme done.reverse] (c :: rest) := by
        rw [lexemes.go, lexemes.go]
        simp only [LexState.next, hbare, Bool.false_eq_true, if_false]
      rw [hclosed]
      exact lexemes_go_found _ _ _
  | cons c word ih =>
    obtain ⟨hc, hword⟩ := forall_mem_cons.mp hword
    rw [cons_append, lexemes.go]
    simp only [LexState.next, hc, if_true]
    rw [ih hword (c :: done), reverse_cons, append_assoc]
    rfl

theorem lexFrom_word (hblank : isQueryBlank c = false) (hmark : isMark c = false)
    (hquote : (c == '"') = false) (hword : ∀ d ∈ c :: word, isBareChar d)
    (hend : ∀ d ∈ rest.head?, isBareChar d = false) :
    lexFrom (c :: word ++ rest) = wordLexeme (c :: word) :: lexFrom rest := by
  obtain ⟨hc, hword⟩ := forall_mem_cons.mp hword
  rw [cons_append, lexFrom, lexemes.go]
  simp only [LexState.next, start, hblank, hmark, hquote, hc, Bool.false_eq_true, if_false, if_true]
  exact lexemes_go_inWord hword hend [c]

private theorem lexemes_go_inQuotes (s : List Char) (hend : rest.head? ≠ some '"')
    (done : List Char) :
    lexemes.go (.inQuotes done) [] (doubled s ++ '"' :: rest) =
      .text (done.reverse ++ doubled s ++ ['"']) :: lexFrom rest := by
  induction s generalizing done with
  | nil =>
    rw [Query.doubled_nil, nil_append, lexemes.go]
    simp only [LexState.next, beq_self_eq_true, if_true]
    cases rest with
    | nil => simp [lexemes.go]
    | cons c rest =>
      have hquote : (c == '"') = false := by simpa using hend
      have hclosed : lexemes.go (.afterQuote ('"' :: done)) [] (c :: rest) =
          lexemes.go .between [.text ('"' :: done).reverse] (c :: rest) := by
        rw [lexemes.go, lexemes.go]
        simp only [LexState.next, hquote, Bool.false_eq_true, if_false]
      rw [hclosed, lexemes_go_found, reverse_cons]
      simp [lexFrom]
  | cons c s ih =>
    by_cases hc : c = '"'
    · subst hc
      rw [Query.doubled_cons_quote, cons_append, cons_append, lexemes.go]
      simp only [LexState.next, beq_self_eq_true, if_true]
      rw [lexemes.go]
      simp only [LexState.next, beq_self_eq_true, if_true]
      rw [ih ('"' :: '"' :: done)]
      simp
    · have hquote : (c == '"') = false := by simpa using hc
      rw [Query.doubled_cons_of_ne hc, cons_append, lexemes.go]
      simp only [LexState.next, hquote, Bool.false_eq_true, if_false]
      rw [ih (c :: done)]
      simp

theorem lexFrom_quoted (s : List Char) (hend : rest.head? ≠ some '"') :
    lexFrom (quoted (doubled s) ++ rest) = .text (quoted (doubled s)) :: lexFrom rest := by
  have hopen : quoted (doubled s) ++ rest = '"' :: (doubled s ++ '"' :: rest) := by
    simp [quoted]
  have hstart : start [] '"' = .ok (.inQuotes ['"'], []) := by rfl
  rw [hopen, lexFrom, lexemes.go]
  simp only [LexState.next, hstart]
  rw [lexemes_go_inQuotes s hend]
  rfl

theorem lexFrom_quoted_of_not_mem (hs : '"' ∉ s) (hend : rest.head? ≠ some '"') :
    lexFrom (quoted s ++ rest) = .text (quoted s) :: lexFrom rest := by
  have hquoted := lexFrom_quoted s hend
  rwa [Query.doubled_eq_self hs] at hquoted

def operators : List (List Char) :=
  ["AND".toList, "OR".toList, "NOT".toList]

theorem wordLexeme_eq (hword : word ∉ operators) : wordLexeme word = .text word := by
  simp only [operators, mem_cons, not_mem_nil, or_false, not_or] at hword
  obtain ⟨hand, hor, hnot⟩ := hword
  rw [wordLexeme, if_neg (by simpa using hand), if_neg (by simpa using hor),
    if_neg (by simpa using hnot)]

theorem wordLexeme_ne_mark (word : List Char) (c : Char) : wordLexeme word ≠ .mark c := by
  unfold wordLexeme
  split_ifs <;> simp

/-! ### What texts stand for -/

theorem undouble_doubled (s : List Char) : unquote.undouble (doubled s) = s := by
  induction s with
  | nil => rfl
  | cons c s ih =>
    by_cases hc : c = '"'
    · subst hc
      exact congrArg ('"' :: ·) ih
    · rw [Query.doubled_cons_of_ne hc, unquote.undouble, ih]
      rintro cs rfl
      exact absurd rfl hc

theorem unquote_quoted (s : List Char) : unquote (quoted (doubled s)) = s := by
  have hlast : (doubled s ++ ['"']).dropLast = doubled s := dropLast_concat
  rw [quoted, unquote, hlast, undouble_doubled]

theorem unquote_quoted_of_not_mem (hs : '"' ∉ s) : unquote (quoted s) = s := by
  have hunquote := unquote_quoted s
  rwa [Query.doubled_eq_self hs] at hunquote

theorem unquote_of_head? {raw : List Char} (hraw : raw.head? ≠ some '"') : unquote raw = raw := by
  unfold unquote
  split
  · simp at hraw
  · rfl

/-! ### Reading takes lexemes from the front -/

open Scheme

/-- Whether only words stand before a comma or a place where no lexeme can start. -/
def isBlocked : List Lexeme → Bool
  | .text _ :: ls | .andWord :: ls | .orWord :: ls | .notWord :: ls => isBlocked ls
  | .mark c :: _ => c == ','
  | .broken _ :: _ => true
  | .stop :: _ | [] => false

theorem isBlocked_wordLexeme (word : List Char) (ls : List Lexeme) :
    isBlocked (wordLexeme word :: ls) = isBlocked ls := by
  unfold wordLexeme
  split_ifs <;> rfl

/-- Whether a lexeme is read outside of brackets. -/
def isPassed : Lexeme → Bool
  | .mark c => c != ','
  | .broken _ => false
  | _ => true

theorem isBlocked_of_cons {l : Lexeme} {ls : List Lexeme} (hl : isPassed l)
    (hls : isBlocked (l :: ls)) : isBlocked ls := by
  cases l with
  | mark c => simp_all [isPassed, isBlocked]
  | broken => cases hl
  | stop => cases hls
  | _ => exact hls

/-- What is left after reading is an end of what was there. It is blocked if that was, unless what
is read stands in brackets. -/
def Leaves {α : Type} (outside : Prop) (ls : List Lexeme)
    (r : Except QueryError (α × List Lexeme)) : Prop :=
  ∀ a rest, r = .ok (a, rest) → rest <:+ ls ∧ (outside → isBlocked ls → isBlocked rest)

section Leaves

variable {α β : Type} {outside : Prop} {ls : List Lexeme} {c : Char}
  {r : Except QueryError (α × List Lexeme)} {operator : Lexeme} {combine : Expr → Expr → Expr}
  {operand inner : OperandReader}

theorem leaves_error (e : QueryError) :
    Leaves outside ls (.error e : Except QueryError (α × List Lexeme)) :=
  fun _ _ h => nomatch h

theorem leaves_self {a : α} : Leaves outside ls (.ok (a, ls)) := by
  rintro _ _ ⟨⟩
  exact ⟨suffix_refl ls, fun _ => id⟩

theorem Leaves.bind {f : α × List Lexeme → Except QueryError (β × List Lexeme)}
    (hr : Leaves outside ls r) (hf : ∀ a rest, Leaves outside rest (f (a, rest))) :
    Leaves outside ls (r >>= f) := by
  intro b rest hall
  rcases r with e | ⟨a, mid⟩
  · exact nomatch hall
  · obtain ⟨hend, hblocked⟩ := hf a mid b rest hall
    obtain ⟨hmid, hblocked'⟩ := hr a mid rfl
    exact ⟨hend.trans hmid, fun hout hls => hblocked hout (hblocked' hout hls)⟩

theorem Leaves.cons {l : Lexeme} (hr : Leaves outside ls r) (hl : outside → isPassed l) :
    Leaves outside (l :: ls) r := by
  intro a rest hall
  obtain ⟨hend, hblocked⟩ := hr a rest hall
  exact ⟨hend.trans (suffix_cons l ls),
    fun hout hls => hblocked hout (isBlocked_of_cons (hl hout) hls)⟩

theorem Leaves.bracket (hr : Leaves False ls r) : Leaves outside (.mark '(' :: ls) r :=
  fun a rest hall => ⟨(hr a rest hall).1.trans (suffix_cons _ ls), fun _ hls => nomatch hls⟩

theorem Leaves.after {γ : Type} {check : Except QueryError γ}
    {k : γ → Except QueryError (α × List Lexeme)} (hk : ∀ x, Leaves outside ls (k x)) :
    Leaves outside ls (check >>= k) := by
  rcases check with e | x
  · exact leaves_error e
  · exact hk x

theorem eq_cons_of_expectMark {rest : List Lexeme} (hread : expectMark c ls = .ok rest) :
    ls = .mark c :: rest := by
  unfold expectMark at hread
  split at hread
  · split at hread
    · next hc =>
      rw [← Except.ok.inj hread, beq_iff_eq.mp hc]
    · exact nomatch hread
  · exact nomatch hread

theorem Leaves.mark {k : List Lexeme → Except QueryError (α × List Lexeme)} (hc : isPassed (.mark c))
    (hk : ∀ rest, Leaves outside rest (k rest)) : Leaves outside ls (expectMark c ls >>= k) := by
  cases hread : expectMark c ls with
  | error e => exact leaves_error e
  | ok rest =>
    rw [eq_cons_of_expectMark hread]
    exact (hk rest).cons fun _ => hc

theorem leaves_takeStar (n room : Nat) (ls : List Lexeme) :
    Leaves outside ls (takeStar n room ls) := by
  unfold takeStar
  split
  · exact Leaves.after fun _ => (leaves_self.cons fun _ => rfl)
  · exact Leaves.after fun _ => leaves_self

variable (scheme : Scheme)

theorem leaves_morePhrase (room fuel : Nat) (p : Phrase) (ls : List Lexeme) :
    Leaves outside ls (scheme.morePhrase room fuel p ls) := by
  induction fuel generalizing p ls with
  | zero => exact leaves_self
  | succ fuel ih =>
    unfold morePhrase
    split
    · refine Leaves.cons (Leaves.after fun _ => ?_) fun _ => rfl
      split
      · refine Leaves.cons (Leaves.after fun _ => ?_) fun _ => rfl
        exact (leaves_takeStar _ _ _).bind fun star rest => ih _ _
      · exact leaves_error _
    · exact leaves_self

theorem leaves_phrase (room : Nat) (ls : List Lexeme) :
    Leaves outside ls (scheme.phrase room ls) := by
  unfold phrase
  split
  · refine Leaves.cons (Leaves.after fun _ => ?_) fun _ => rfl
    exact (leaves_takeStar _ _ _).bind fun star rest => leaves_morePhrase scheme _ _ _ _
  · exact leaves_error _

theorem leaves_phraseList (fuel room : Nat) (done : List Phrase) (ls : List Lexeme) :
    Leaves outside ls (scheme.phraseList fuel room done ls) := by
  induction fuel generalizing room done ls with
  | zero => exact leaves_error _
  | succ fuel ih =>
    unfold phraseList
    refine (leaves_phrase scheme room ls).bind fun p rest => ?_
    dsimp only
    split
    · exact ih _ _ _
    · exact leaves_self

theorem leaves_nearGroup (room : Nat) (name : List Char) (ls : List Lexeme) :
    Leaves False ls (scheme.nearGroup room name ls) := by
  unfold nearGroup
  refine (leaves_phraseList scheme _ _ _ _).bind fun phrases rest => ?_
  refine Leaves.bind ?_ fun raw rest => Leaves.mark rfl fun rest => Leaves.after fun _ => ?_
  · split
    · refine Leaves.cons (Leaves.after fun _ => ?_) False.elim
      split
      · exact Leaves.cons (Leaves.after fun _ => leaves_self) False.elim
      · exact leaves_error _
    · exact Leaves.after fun _ => leaves_self
  · dsimp only
    split
    · exact leaves_error _
    · split
      · exact leaves_self
      · split
        · exact leaves_self
        · exact leaves_error _

theorem leaves_group (room : Nat) (ls : List Lexeme) :
    Leaves outside ls (scheme.group room ls) := by
  unfold group
  split
  · refine Leaves.cons (Leaves.bracket ?_) fun _ => rfl
    exact Leaves.after fun _ => Leaves.after fun _ => leaves_nearGroup scheme _ _ _
  · refine Leaves.cons (Leaves.after fun _ => ?_) fun _ => rfl
    exact (leaves_phrase scheme _ _).bind fun p rest => leaves_self
  · exact (leaves_phrase scheme _ _).bind fun p rest => leaves_self

theorem leaves_columnList (room : Nat) (done : List Nat) (ls : List Lexeme) :
    Leaves outside ls (scheme.columnList room done ls) := by
  fun_induction columnList scheme room done ls with
  | case1 done raw rest ih =>
    exact Leaves.cons (Leaves.after fun _ => Leaves.after fun _ => ih _) fun _ => rfl
  | case2 => exact leaves_error _
  | case3 => exact Leaves.cons (Leaves.after fun _ => leaves_self) fun _ => rfl
  | case4 => exact leaves_error _

theorem Leaves.colon {room : Nat} {k : List Lexeme → Except QueryError (α × List Lexeme)}
    (hk : ∀ rest, Leaves outside rest (k rest)) :
    Leaves outside ls (expectColon room ls >>= k) := by
  unfold expectColon
  rw [bind_assoc]
  refine Leaves.mark rfl fun rest => ?_
  rw [bind_assoc]
  exact Leaves.after fun _ => hk rest

theorem leaves_columnFilter (room : Nat) (ls : List Lexeme) :
    Leaves outside ls (scheme.columnFilter room ls) := by
  unfold columnFilter
  split
  · refine Leaves.cons (Leaves.cons ?_ fun _ => rfl) fun _ => rfl
    exact Leaves.after fun _ => Leaves.after fun _ => Leaves.after fun _ =>
      leaves_self
  · refine Leaves.cons (Leaves.after fun _ => ?_) fun _ => rfl
    exact (leaves_columnList scheme _ _ _).bind fun columns rest =>
      Leaves.colon fun rest => leaves_self
  · refine Leaves.cons (Leaves.after fun _ => ?_) fun _ => rfl
    split
    · refine Leaves.cons (Leaves.after fun _ => ?_) fun _ => rfl
      exact (leaves_columnList scheme _ _ _).bind fun columns rest =>
        Leaves.colon fun rest => leaves_self
    · refine Leaves.cons (Leaves.after fun _ => Leaves.after fun column => ?_) fun _ => rfl
      exact Leaves.colon fun rest => leaves_self
    · exact leaves_error _
  · exact leaves_self

theorem leaves_filteredGroup (room : Nat) (columns : Option (List Nat)) (ls : List Lexeme) :
    Leaves outside ls (scheme.filteredGroup room columns ls) :=
  (leaves_group scheme _ _).bind fun _ _ => leaves_self

theorem leaves_moreGroups (room fuel : Nat) (e : Expr) (ls : List Lexeme) :
    Leaves outside ls (scheme.moreGroups room fuel e ls) := by
  induction fuel generalizing e ls with
  | zero => exact leaves_self
  | succ fuel ih =>
    unfold moreGroups
    split
    · refine (leaves_columnFilter scheme _ _).bind fun columns rest => ?_
      exact (leaves_filteredGroup scheme _ _ _).bind fun g rest => ih _ _
    · exact leaves_self

theorem leaves_chain (hoperator : isPassed operator)
    (hoperand : ∀ room ls, Leaves outside ls (operand room ls)) (room fuel : Nat) (e : Expr)
    (ls : List Lexeme) : Leaves outside ls (chain operator combine operand room fuel e ls) := by
  induction fuel generalizing e ls with
  | zero => exact leaves_self
  | succ fuel ih =>
    unfold chain
    split
    · split
      · next hsame =>
        rw [beq_iff_eq.mp hsame]
        refine Leaves.cons (Leaves.after fun _ => ?_) fun _ => hoperator
        exact (hoperand _ _).bind fun e₂ rest => Leaves.after fun _ => ih _ _
      · exact leaves_self
    · exact leaves_self

theorem leaves_level (hoperator : isPassed operator)
    (hoperand : ∀ room ls, Leaves outside ls (operand room ls)) (room : Nat) (ls : List Lexeme) :
    Leaves outside ls (level operator combine operand room ls) :=
  (hoperand room ls).bind fun _ _ => leaves_chain hoperator hoperand _ _ _ _

theorem leaves_bracketed (hinner : ∀ room ls, Leaves outside ls (inner room ls))
    (opening room : Nat) (ls : List Lexeme) : Leaves outside ls (bracketed inner opening room ls) := by
  refine Leaves.after fun _ => (hinner _ _).bind fun e rest => ?_
  exact Leaves.mark rfl fun rest => Leaves.after fun _ => leaves_self

theorem leaves_operand (hinner : ∀ room ls, Leaves outside ls (inner room ls)) (room : Nat)
    (ls : List Lexeme) : Leaves outside ls (scheme.operand inner room ls) := by
  unfold operand
  split
  · exact (leaves_bracketed hinner _ _ _).cons fun _ => rfl
  · refine (leaves_columnFilter scheme _ _).bind fun columns rest => ?_
    dsimp only
    split
    · refine Leaves.cons ?_ fun _ => rfl
      exact (leaves_bracketed hinner _ _ _).bind fun e rest => leaves_self
    · exact (leaves_filteredGroup scheme _ _ _).bind fun g rest => leaves_moreGroups scheme _ _ _ _

/-- Reading a query takes lexemes from the front and leaves the others. A comma outside of brackets,
or a place where no lexeme can start, is not passed. -/
theorem leaves_expr (fuel room : Nat) (ls : List Lexeme) :
    Leaves outside ls (scheme.expr fuel room ls) := by
  induction fuel generalizing room ls with
  | zero => exact leaves_error _
  | succ fuel ih =>
    exact leaves_level rfl (leaves_level rfl (leaves_level rfl (leaves_operand scheme ih))) room ls

end Leaves

variable {front tail rest : List Lexeme}

theorem eq_of_cons_suffix {x : Lexeme} (hfront : x ∉ front) (htail : x ∉ tail)
    (hsuffix : x :: rest <:+ front ++ x :: tail) : rest = tail := by
  rcases suffix_or_suffix_of_suffix hsuffix (suffix_append front (x :: tail)) with
    hshort | hlong
  · rcases suffix_cons_iff.mp hshort with hsame | hlater
    · exact (List.cons.inj hsame).2
    · exact absurd (hlater.subset mem_cons_self) htail
  · rcases suffix_cons_iff.mp hlong with hsame | ⟨middle, rfl⟩
    · exact (List.cons.inj hsame).2.symm
    · obtain ⟨first, hfirst⟩ := hsuffix
      have hcut : first ++ x :: middle = front := by
        rw [← append_left_inj (x :: tail), ← hfirst, append_assoc, cons_append]
      exact absurd (hcut ▸ mem_append_right first mem_cons_self) hfront

theorem eq_of_bracketed {inner : OperandReader} (hinner : ∀ room ls, Leaves False ls (inner room ls))
    {opening room : Nat} {e : Expr} (hfront : .mark ')' ∉ front) (htail : .mark ')' ∉ tail)
    (hread : bracketed inner opening room (front ++ .mark ')' :: tail) = .ok (e, rest)) :
    rest = tail := by
  unfold bracketed at hread
  cases hhold : hold opening room with
  | error err =>
    rw [hhold] at hread
    exact nomatch hread
  | ok _ =>
    rw [hhold] at hread
    cases hbody : inner (room - opening) (front ++ .mark ')' :: tail) with
    | error err => simp [hbody, bind, Except.bind] at hread
    | ok found =>
      obtain ⟨e₁, mid⟩ := found
      cases hmark : expectMark ')' mid with
      | error err => simp [hbody, hmark, bind, Except.bind] at hread
      | ok left =>
        have hleft : left = rest := by
          cases hlast : hold (opening + 2) room with
          | error err => simp [hbody, hmark, hlast, bind, Except.bind] at hread
          | ok _ =>
            simp [hbody, hmark, hlast, bind, Except.bind, pure, Except.pure] at hread
            exact hread.2
        rw [← hleft]
        refine eq_of_cons_suffix hfront htail ?_
        rw [← eq_cons_of_expectMark hmark]
        exact (hinner _ _ _ _ hbody).1

end JarAtlas.FullText
