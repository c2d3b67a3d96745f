import JarAtlas.Proofs.Query.Stability

/-!
Where the special characters of a query stand once it is prepared: inside string literals, as long
as the quotes that were typed come in pairs. Only words without dots have their quotes doubled, so
one quote in a dotted word, or in a plain word before it, turns the inside of the literals that
preparation writes to their outside.
-/

open List

namespace JarAtlas.Query

/-- The characters for which terms are changed. -/
def isSpecial (c : Char) : Bool :=
  c == '.' || c == '/' || c == ':' || c == '-'

/-- A text with, for each character, whether it was typed. -/
abbrev Trace := List (Char × Bool)

namespace Trace

def typed (cs : List Char) : Trace :=
  cs.map (·, true)

def added (cs : List Char) : Trace :=
  cs.map (·, false)

def chars (tr : Trace) : List Char :=
  tr.map Prod.fst

/-- Whether something holds of every place of a text where a special character was typed. -/
def AtTyped (P : Trace → Trace → Prop) (tr : Trace) : Prop :=
  ∀ before c after, tr = before ++ (c, true) :: after → isSpecial c = true → P before after

/-- Whether the place between two parts of a text is in a string literal that is closed. -/
def InLiteral (before after : Trace) : Prop :=
  (chars before).count '"' % 2 = 1 ∧ '"' ∈ chars after

end Trace

open Trace

/-- A string literal that preparation writes around a typed text. -/
structure Literal where
  front : List Char
  text : List Char
  back : List Char
  bare : '"' ∉ front := by decide
  closed : back.count '"' = 1 := by decide
  colons : ∀ c ∈ front ++ back, isSpecial c = true → c = ':' := by decide

def Literal.trace (l : Literal) : Trace :=
  added (l.front ++ ['"']) ++ typed l.text ++ added l.back

/-- The literals of a term that is neither quoted nor plain. -/
def literals (t : List Char) : List Literal :=
  if !t.contains '.' then [.mk [] (doubled t) ['"']]
  else if ['*', '.'].isPrefixOf t.reverse then
    [.mk "package:".toList t.dropLast.dropLast "*\"".toList]
  else
    match Text.splitLast? '.' t with
    | some (package, name) =>
      if name.head?.any Text.isCapital then
        [.mk "(package:".toList package ['"'],
          .mk " AND class_name:".toList name "*\")".toList]
      else [.mk [] t ['"']]
    | none => [.mk [] t ['"']]

/-- The prepared form of a term, traced to what was typed. -/
def traceTerm (t : List Char) : Trace :=
  if isQuoted t || isPlain t then typed t else (literals t).flatMap Literal.trace

/-- Traced terms, one after another, with a space before each. -/
def traceTerms (ts : List (List Char)) : Trace :=
  ts.flatMap fun t => added [' '] ++ traceTerm t

def trace (cs : List Char) : Trace :=
  (traceTerms (terms cs)).tail

/-! ### Places where something was typed -/

section Places

variable {P : Trace → Trace → Prop} {a b : Trace} {cs : List Char}

@[simp] theorem chars_typed (cs : List Char) : chars (typed cs) = cs := by
  simp [chars, typed, Function.comp_def]

@[simp] theorem chars_added (cs : List Char) : chars (added cs) = cs := by
  simp [chars, added, Function.comp_def]

@[simp] theorem chars_append (a b : Trace) : chars (a ++ b) = chars a ++ chars b :=
  map_append

theorem count_chars (tr : Trace) :
    (chars tr).count '"' = tr.count ('"', true) + tr.count ('"', false) := by
  induction tr with
  | nil => rfl
  | cons m tr ih =>
    obtain ⟨c, own⟩ := m
    have hcons : chars ((c, own) :: tr) = c :: chars tr := rfl
    rw [hcons, count_cons, count_cons, count_cons, ih]
    by_cases hc : c = '"' <;> cases own <;> simp [hc] <;> omega

@[simp] theorem atTyped_append : AtTyped P (a ++ b) ↔
    AtTyped (fun x y => P x (y ++ b)) a ∧ AtTyped (fun x y => P (a ++ x) y) b := by
  constructor
  · intro h
    constructor
    · rintro before c after rfl hc
      exact h before c (after ++ b) (by simp) hc
    · rintro before c after rfl hc
      exact h (a ++ before) c after (by simp) hc
  · rintro ⟨ha, hb⟩ before c after hplace hc
    rcases append_eq_append_iff.mp hplace with ⟨d, rfl, hd⟩ | ⟨d, rfl, hd⟩
    · exact hb d c after hd hc
    · cases d with
      | nil =>
        have hb := hb [] c after hd.symm hc
        rwa [append_nil, append_nil] at hb
      | cons m d =>
        obtain ⟨rfl, rfl⟩ := cons.inj hd
        exact ha before c d rfl hc

@[simp] theorem atTyped_added : AtTyped P (added cs) := by
  intro before c after hplace
  have hmem : (c, true) ∈ added cs := hplace ▸ by simp
  simp [added] at hmem

theorem atTyped_typed_iff : AtTyped P (typed cs) ↔
    ∀ x c y, cs = x ++ c :: y → isSpecial c → P (typed x) (typed y) := by
  constructor
  · rintro h x c y rfl hc
    exact h _ c _ (by simp [typed]) hc
  · intro h before c after hplace hc
    obtain ⟨x, r, rfl, rfl, hr⟩ := map_eq_append_iff.mp hplace
    obtain ⟨d, y, rfl, hd, rfl⟩ := map_eq_cons_iff.mp hr
    cases hd
    exact h x c y rfl hc

@[simp] theorem count_typed (own : Bool) (cs : List Char) :
    (typed cs).count ('"', own) = if own then cs.count '"' else 0 := by
  have hcount := count_chars (typed cs)
  have hnone : (typed cs).count ('"', false) = 0 := count_eq_zero.mpr (by simp [typed])
  rw [chars_typed] at hcount
  cases own <;> simp <;> omega

@[simp] theorem count_added (own : Bool) (cs : List Char) :
    (added cs).count ('"', own) = if own then 0 else cs.count '"' := by
  have hcount := count_chars (added cs)
  have hnone : (added cs).count ('"', true) = 0 := count_eq_zero.mpr (by simp [added])
  rw [chars_added] at hcount
  cases own <;> simp <;> omega

end Places

/-! ### Terms -/

section Term

variable {t : List Char} {l : Literal}

theorem chars_traceTerm (t : List Char) : chars (traceTerm t) = prepareTerm t := by
  unfold traceTerm
  cases hquoted : isQuoted t with
  | true => simp [prepareTerm_of_isQuoted hquoted]
  | false =>
    cases hplain : isPlain t with
    | true => simp [prepareTerm_of_isPlain hplain]
    | false =>
      rw [isPlain_eq] at hplain
      unfold prepareTerm dottedTerm literals
      cases hdot : t.contains '.' with
      | false =>
        rw [hdot, Bool.not_false, Bool.true_and, Bool.not_eq_false'] at hplain
        simp [hquoted, hplain, Literal.trace, quoted, doubled]
      | true =>
        cases hstar : ['*', '.'].isPrefixOf t.reverse with
        | true => simp [hquoted, Literal.trace]
        | false =>
          cases hsplit : Text.splitLast? '.' t with
          | none => simp [hquoted, Literal.trace, quoted]
          | some parts =>
            cases hcapital : parts.2.head?.any Text.isCapital <;>
              simp [hquoted, hcapital, Literal.trace, quoted]

theorem mem_of_mem_literals (hl : l ∈ literals t) (hquote : '"' ∈ l.text) : '"' ∈ t := by
  unfold literals at hl
  split at hl
  · obtain rfl := mem_singleton.mp hl
    by_contra hfree
    exact hfree (doubled_eq_self hfree ▸ hquote)
  · split at hl
    · obtain rfl := mem_singleton.mp hl
      exact mem_of_mem_dropLast (mem_of_mem_dropLast hquote)
    · split at hl
      · next hsplit =>
        split at hl
        · rw [(Text.splitLast?_eq_some hsplit).1]
          rcases mem_pair.mp hl with rfl | rfl <;> simp_all
        · obtain rfl := mem_singleton.mp hl
          exact hquote
      · obtain rfl := mem_singleton.mp hl
        exact hquote

theorem Literal.count_trace (l : Literal) : l.trace.count ('"', false) = 2 := by
  simp [trace, l.closed, count_eq_zero.mpr l.bare]

theorem atTyped_flatMap (ls : List Literal) :
    AtTyped (fun x y => x.count ('"', false) % 2 = 1 ∧ '"' ∈ chars y) (ls.flatMap Literal.trace) := by
  induction ls with
  | nil => simp [AtTyped]
  | cons l ls ih =>
    have hback : '"' ∈ l.back := count_pos_iff.mp (by rw [l.closed]; decide)
    rw [flatMap_cons, atTyped_append]
    constructor
    · simp [Literal.trace, atTyped_typed_iff, count_eq_zero.mpr l.bare, hback]
    · simpa [l.count_trace] using ih

theorem atTyped_traceTerm (t : List Char) : AtTyped (fun x y =>
    (x.count ('"', false) + (isQuoted t).toNat) % 2 = 1 ∧ '"' ∈ chars y) (traceTerm t) := by
  unfold traceTerm
  cases hquoted : isQuoted t with
  | true =>
    rw [Bool.true_or, if_pos rfl, atTyped_typed_iff]
    rintro x c y rfl hc
    have hlast : (c :: y).getLast? = some '"' := by
      simp only [isQuoted, getLast?_append_cons, Bool.and_eq_true, beq_iff_eq] at hquoted
      exact hquoted.2
    rcases mem_cons.mp (mem_of_getLast? hlast) with rfl | hmem
    · exact absurd hc (by decide)
    · simpa using hmem
  | false =>
    cases hplain : isPlain t with
    | true =>
      rw [Bool.false_or, if_pos rfl, atTyped_typed_iff]
      rintro x c y rfl hc
      simp_all [isPlain, isSpecial]
    | false => exact atTyped_flatMap (literals t)

/-- A special character of a term, after `n` quotes, is in a literal exactly if they and the quotes
typed before it come in pairs, but for the quote that opens a phrase. -/
theorem traceTerm_inLiteral_iff (n : Nat) (t : List Char) (rest : Trace) :
    AtTyped (fun x y => (n + (chars x).count '"') % 2 = 1 ∧ '"' ∈ chars (y ++ rest)) (traceTerm t) ↔
      AtTyped (fun x _ => (n + x.count ('"', true) + (isQuoted t).toNat) % 2 = 0) (traceTerm t) := by
  have hplaces := atTyped_traceTerm t
  constructor
  · intro h before c after hplace hc
    obtain ⟨hadded, -⟩ := hplaces before c after hplace hc
    obtain ⟨hinside, -⟩ := h before c after hplace hc
    rw [count_chars] at hinside
    omega
  · intro h before c after hplace hc
    obtain ⟨hadded, hafter⟩ := hplaces before c after hplace hc
    have hpairs := h before c after hplace hc
    dsimp only at hpairs ⊢
    rw [count_chars, chars_append]
    exact ⟨by omega, mem_append_left _ hafter⟩

end Term

theorem forall_eq_append_cons {α : Type} {x : α} {xs : List α} (P : List α → α → Prop) :
    (∀ done y rest, x :: xs = done ++ y :: rest → P done y) ↔
      P [] x ∧ ∀ done y rest, xs = done ++ y :: rest → P (x :: done) y := by
  simp only [cons_eq_append_iff]
  aesop

theorem traceTerms_cons (t : List Char) (ts : List (List Char)) :
    traceTerms (t :: ts) = added [' '] ++ (traceTerm t ++ traceTerms ts) := by
  simp [traceTerms]

theorem traceTerms_inLiteral_iff (n : Nat) (ts : List (List Char)) :
    AtTyped (fun x y => (n + (chars x).count '"') % 2 = 1 ∧ '"' ∈ chars y) (traceTerms ts) ↔
      ∀ done t rest, ts = done ++ t :: rest → AtTyped (fun x _ =>
        (n + (done.flatMap prepareTerm).count '"' + x.count ('"', true) + (isQuoted t).toNat) % 2 =
          0) (traceTerm t) := by
  induction ts generalizing n with
  | nil => simp [traceTerms, AtTyped]
  | cons t ts ih =>
    have hrest := ih (n + (prepareTerm t).count '"')
    have hterm := traceTerm_inLiteral_iff n t (traceTerms ts)
    rw [forall_eq_append_cons, traceTerms_cons, atTyped_append, atTyped_append]
    simp_all [chars_traceTerm, ← Nat.add_assoc]

theorem inLiteral_trace_iff (cs : List Char) : AtTyped InLiteral (trace cs) ↔
    ∀ done t rest, terms cs = done ++ t :: rest → AtTyped (fun before _ =>
      ((done.flatMap prepareTerm).count '"' + before.count ('"', true) + (isQuoted t).toNat) % 2 =
        0) (traceTerm t) := by
  have hiff := traceTerms_inLiteral_iff 0 (terms cs)
  simp only [Nat.zero_add] at hiff
  rw [← hiff, trace]
  cases terms cs with
  | nil => rfl
  | cons t ts =>
    have htail : (traceTerms (t :: ts)).tail = traceTerm t ++ traceTerms ts := by
      rw [traceTerms_cons]
      rfl
    rw [htail, traceTerms_cons, atTyped_append]
    simp [InLiteral]

theorem chars_trace (cs : List Char) : chars (trace cs) = prepareChars cs := by
  have hwritten : chars (traceTerms (terms cs)) = written ((terms cs).map prepareTerm) := by
    induction terms cs with
    | nil => rfl
    | cons t ts ih => simp [traceTerms_cons, chars_traceTerm, ih]
  have htail : chars (trace cs) = (chars (traceTerms (terms cs))).tail := map_tail
  rw [htail, hwritten, prepareChars]
  cases hterms : (terms cs).map prepareTerm with
  | nil => rfl
  | cons u us => rw [written_eq_cons (by simp), tail_cons]

/-! ### Queries without quotes -/

theorem count_traceTerm {t : List Char} (hfree : '"' ∉ t) :
    (traceTerm t).count ('"', true) = 0 ∧ (traceTerm t).count ('"', false) % 2 = 0 := by
  unfold traceTerm
  split
  · simp [count_eq_zero.mpr hfree]
  · have htexts (l : Literal) (hl : l ∈ literals t) : l.text.count '"' = 0 :=
      count_eq_zero.mpr (mt (mem_of_mem_literals hl) hfree)
    generalize literals t = ls at htexts
    induction ls with
    | nil => simp
    | cons l ls ih =>
      obtain ⟨hl, hls⟩ := forall_mem_cons.mp htexts
      have hrest := ih hls
      have htwo := l.count_trace
      have hnone : l.trace.count ('"', true) = 0 := by simp [Literal.trace, hl]
      rw [flatMap_cons, count_append, count_append]
      omega

theorem count_prepared {ts : List (List Char)} (hfree : ∀ t ∈ ts, '"' ∉ t) :
    (ts.flatMap prepareTerm).count '"' % 2 = 0 := by
  induction ts with
  | nil => rfl
  | cons t ts ih =>
    obtain ⟨ht, hts⟩ := forall_mem_cons.mp hfree
    have hcount := count_traceTerm ht
    have hrest := ih hts
    rw [flatMap_cons, count_append, ← chars_traceTerm, count_chars]
    omega

variable {cs : List Char}

theorem inLiteral_of_not_mem (hfree : '"' ∉ cs) : AtTyped InLiteral (trace cs) := by
  rw [inLiteral_trace_iff]
  intro done t rest hterms before c after hplace _
  have hnone (u : List Char) (hu : u ∈ done ++ t :: rest) : '"' ∉ u :=
    fun hmem => hfree ((divides_terms cs).mem_of_mem (hterms ▸ hu) hmem)
  have ht : '"' ∉ t := hnone t (by simp)
  have hdone := count_prepared fun u hu => hnone u (mem_append_left _ hu)
  have hcount := (count_traceTerm ht).1
  have hquoted : isQuoted t = false := by
    have hhead : t.head? ≠ some '"' := fun hhead => ht (mem_of_mem_head? hhead)
    simp [isQuoted, hhead]
  rw [hplace, count_append] at hcount
  rw [hquoted, Bool.toNat_false]
  omega

/-! ### What was added -/

theorem colon_of_mem_trace {c : Char} (hmem : (c, false) ∈ trace cs)
    (hc : isSpecial c) : c = ':' := by
  obtain ⟨t, -, ht⟩ := mem_flatMap.mp (mem_of_mem_tail hmem)
  rcases mem_append.mp ht with hspace | hmem
  · obtain rfl : c = ' ' := by simpa [added] using hspace
    exact absurd hc (by decide)
  · unfold traceTerm at hmem
    split at hmem
    · simp [typed] at hmem
    · obtain ⟨l, -, hl⟩ := mem_flatMap.mp hmem
      have hadded : c ∈ l.front ∨ c = '"' ∨ c ∈ l.back := by
        simpa [Literal.trace, added, typed] using hl
      rcases hadded with hfront | rfl | hback
      · exact l.colons c (mem_append_left _ hfront) hc
      · exact absurd hc (by decide)
      · exact l.colons c (mem_append_right _ hback) hc

end JarAtlas.Query

namespace JarAtlas.FullText

/-- The character that a lexeme consists of, if it stands outside of words and string literals. -/
def Lexeme.lone? : Lexeme → Option Char
  | mark c => some c
  | broken (.unexpected [c]) => some c
  | _ => none

def LexState.isInside : LexState → Bool
  | inQuotes _ => true
  | _ => false

/-- What one more character does: a quote changes sides, and a character is a lexeme of its own only
outside of string literals. -/
def StepsOver (inside : Bool) (c : Char) : Except (List Lexeme) (LexState × List Lexeme) → Prop
  | .ok (after, new) => after.isInside = (inside != (c == '"')) ∧
    ∀ l ∈ new, ∀ d ∈ l.lone?, d = c ∧ inside = false
  | .error new => ∀ l ∈ new, ∀ d ∈ l.lone?, d = c ∧ inside = false

theorem lone?_wordLexeme (word : List Char) : (wordLexeme word).lone? = none := by
  unfold wordLexeme
  split_ifs <;> rfl

theorem start_stepsOver {found : List Lexeme} (hfound : ∀ l ∈ found, l.lone? = none) (c : Char) :
    StepsOver false c (LexState.start found c) := by
  have hquote (hc : isQueryBlank c ∨ isMark c) : (c == '"') = false := by
    rw [beq_eq_false_iff_ne]
    rintro rfl
    revert hc
    decide
  have hold : ∀ l ∈ found, ∀ d ∈ l.lone?, d = c ∧ false = false := by
    intro l hl d hd
    simp [hfound l hl] at hd
  have hnew (l : Lexeme) (hl : l.lone? = some c) :
      ∀ k ∈ l :: found, ∀ d ∈ k.lone?, d = c ∧ false = false :=
    forall_mem_cons.mpr ⟨by simp [hl], hold⟩
  unfold LexState.start
  split_ifs with hblank hmark hc hbare
  · exact ⟨by rw [hquote (.inl hblank)]; rfl, hold⟩
  · exact ⟨by rw [hquote (.inr hmark)]; rfl, hnew _ rfl⟩
  · exact ⟨by simp [hc, LexState.isInside], hold⟩
  · exact ⟨by simp [hc, LexState.isInside], hold⟩
  · exact hnew _ rfl

theorem next_stepsOver (state : LexState) (c : Char) :
    StepsOver state.isInside c (state.next [] c) := by
  cases state with
  | between => exact start_stepsOver (by simp) c
  | inWord done =>
    unfold LexState.next
    dsimp only
    split_ifs with hbare
    · have hc : c ≠ '"' := by
        rintro rfl
        exact absurd hbare (by decide)
      simp [StepsOver, LexState.isInside, hc]
    · exact start_stepsOver (by simp [lone?_wordLexeme]) c
  | inQuotes done =>
    unfold LexState.next
    dsimp only
    split_ifs with hc <;> simp [StepsOver, LexState.isInside, hc]
  | afterQuote done =>
    unfold LexState.next
    dsimp only
    split_ifs with hc
    · simp [StepsOver, LexState.isInside, hc]
    · exact start_stepsOver (by simp [Lexeme.lone?]) c

theorem lone_outside {state : LexState} {cs : List Char} {l : Lexeme} {c : Char}
    (hl : l ∈ lexemes.go state [] cs) (hc : l.lone? = some c) :
    ∃ x y, cs = x ++ c :: y ∧ (x.count '"' + state.isInside.toNat) % 2 = 0 := by
  induction cs generalizing state with
  | nil =>
    have hnone : l.lone? = none := by
      cases state <;> simp [lexemes.go] at hl <;> rcases hl with rfl | rfl <;>
        first | rfl | exact lone?_wordLexeme _
    simp [hnone] at hc
  | cons d cs ih =>
    have hstep := next_stepsOver state d
    rw [lexemes.go] at hl
    cases hnext : state.next [] d with
    | error new =>
      simp only [hnext, StepsOver] at hl hstep
      obtain ⟨rfl, hout⟩ := hstep l (mem_reverse.mp hl) c hc
      exact ⟨[], cs, rfl, by simp [hout]⟩
    | ok step =>
      simp only [hnext, StepsOver] at hl hstep
      rw [lexemes_go_found] at hl
      rcases mem_append.mp hl with hl | hl
      · obtain ⟨rfl, hout⟩ := hstep.2 l (mem_reverse.mp hl) c hc
        exact ⟨[], cs, rfl, by simp [hout]⟩
      · obtain ⟨x, y, rfl, hcount⟩ := ih hl
        refine ⟨d :: x, y, rfl, ?_⟩
        rw [hstep.1] at hcount
        rw [count_cons]
        generalize state.isInside = inside at hcount ⊢
        cases inside <;> cases hd : d == '"' <;> simp [hd] at hcount ⊢ <;> omega

end JarAtlas.FullText

namespace JarAtlas.Query

open Trace

/-- Every special character that was typed stands in a closed string literal of the prepared query
exactly if the quotes before it, but for one that opens a phrase, are even in number. -/
theorem special_inLiteral_iff (query : String) :
    chars (trace query.toList) = (prepare query).toList ∧
    (AtTyped InLiteral (trace query.toList) ↔
      ∀ done t rest, terms query.toList = done ++ t :: rest → AtTyped (fun before _ =>
        ((done.flatMap prepareTerm).count '"' + before.count ('"', true) + (isQuoted t).toNat) % 2 =
          0) (traceTerm t)) ∧
    ('"' ∉ query.toList → AtTyped InLiteral (trace query.toList)) ∧
    (AtTyped InLiteral (trace query.toList) → ∀ l ∈ FullText.lexemes (prepare query).toList,
      ∀ c ∈ l.lone?, isSpecial c = true → c = ':' ∧ (':', false) ∈ trace query.toList) := by
  have hchars : chars (trace query.toList) = (prepare query).toList := by
    rw [chars_trace, prepare, String.toList_ofList]
  refine ⟨hchars, inLiteral_trace_iff _, inLiteral_of_not_mem, fun hinside l hl c hlone hc => ?_⟩
  -- The lexeme's character stands at a place of the trace, up to the first null character.
  obtain ⟨x, y, hplace, hcount⟩ := FullText.lone_outside hl hlone
  have hall := takeWhile_append_dropWhile (p := fun c => c.toNat != 0) (l := (prepare query).toList)
  rw [hplace, ← hchars, append_assoc] at hall
  obtain ⟨before, r, htrace, rfl, hr⟩ := map_eq_append_iff.mp hall.symm
  obtain ⟨⟨d, own⟩, after, rfl, rfl, -⟩ := map_eq_cons_iff.mp hr
  cases own with
  | true =>
    have hodd := (hinside before _ after htrace hc).1
    have heven : (chars before).count '"' % 2 = 0 := hcount
    omega
  | false =>
    have hadded : (d, false) ∈ trace query.toList := htrace ▸ by simp
    obtain rfl := colon_of_mem_trace hadded hc
    exact ⟨rfl, hadded⟩

end JarAtlas.Query
