import JarAtlas.Explore.Usages
import JarAtlas.Proofs.Catalogue.Indexing

/-!
Where names are used. A use is told with the line of its place, but its number counts line feeds
only, and what the line says is looked up among all lines. Both mean the same line exactly if no
other character that ends a line comes before the place; otherwise an earlier line is told.
-/

open List Except

namespace JarAtlas

open JarAtlas.Action Text

/-! ### Lines -/

namespace Text

variable {c : Char} {before after line : List Char} {cs word : List Char}

theorem isBlank_of_endsLine (hc : endsLine c) : isBlank c := by
  simp only [endsLine, Bool.or_eq_true, Bool.and_eq_true, decide_eq_true_eq, beq_iff_eq] at hc
  unfold isBlank
  by_cases hascii : c.toNat < 0x80
  · simp only [hascii, if_true, Bool.or_eq_true, Bool.and_eq_true, decide_eq_true_eq]
    omega
  · simp only [hascii, if_false, Bool.or_eq_true, Bool.and_eq_true, decide_eq_true_eq, beq_iff_eq]
    omega

theorem endsLine_eq_false (hc : isBlank c = false) : endsLine c = false := by
  by_contra hends
  rw [isBlank_of_endsLine (by simpa using hends)] at hc
  cases hc

private theorem lines_go_cons {done : List (List Char)} (hc : c ≠ '\r') :
    lines.go (c :: cs) line done =
      if endsLine c then lines.go cs [] (line.reverse :: done) else lines.go cs (c :: line) done := by
  rw [lines.go]
  rintro rest rfl
  exact absurd rfl hc

private theorem lines_go_done (hcs : '\r' ∉ cs) (line : List Char)
    (done : List (List Char)) : lines.go cs line done = done.reverse ++ lines.go cs line [] := by
  induction cs generalizing line done with
  | nil => cases line <;> simp [lines.go]
  | cons c cs ih =>
    obtain ⟨hc, hcs⟩ := ne_and_not_mem_of_not_mem_cons hcs
    rw [lines_go_cons hc.symm, lines_go_cons hc.symm]
    split
    · rw [ih hcs, ih hcs [] [_], reverse_cons, append_assoc]
      rfl
    · exact ih hcs _ _

private theorem lines_go_zero (hafter : '\r' ∉ after) (hline : line ≠ []) :
    (lines.go after line [])[0]? = some (line.reverse ++ after.takeWhile (!endsLine ·)) := by
  induction after generalizing line with
  | nil =>
    cases line with
    | nil => exact absurd rfl hline
    | cons d line => simp [lines.go]
  | cons d after ih =>
    obtain ⟨hd, hafter⟩ := ne_and_not_mem_of_not_mem_cons hafter
    rw [lines_go_cons hd.symm]
    cases hends : endsLine d with
    | true =>
      rw [if_pos rfl, lines_go_done hafter]
      simp [hends]
    | false =>
      rw [if_neg Bool.false_ne_true, ih hafter (cons_ne_nil _ _)]
      simp [hends]

def lineStart (before : List Char) : List Char :=
  (before.reverse.takeWhile (!endsLine ·)).reverse

def lineRest (after : List Char) : List Char :=
  after.takeWhile (!endsLine ·)

theorem lines_getElem?_countP (hreturn : '\r' ∉ before ++ c :: after) (hc : endsLine c = false) :
    (lines (before ++ c :: after))[before.countP endsLine]? =
      some (lineStart before ++ c :: lineRest after) := by
  -- The induction is on the text before; what of it belongs to the current line is in `line`.
  have hgo (line : List Char) (hline : ∀ d ∈ line, endsLine d = false) :
      (lines.go (before ++ c :: after) line [])[before.countP endsLine]? =
        some (((before.reverse ++ line).takeWhile (!endsLine ·)).reverse ++ c :: lineRest after) := by
    induction before generalizing line with
    | nil =>
      obtain ⟨hne, hafter⟩ := ne_and_not_mem_of_not_mem_cons hreturn
      have hall : line.takeWhile (!endsLine ·) = line :=
        takeWhile_eq_self_iff.mpr fun d hd => by simp [hline d hd]
      rw [nil_append, lines_go_cons hne.symm, hc, if_neg Bool.false_ne_true, countP_nil,
        lines_go_zero hafter (cons_ne_nil _ _), reverse_nil, nil_append, hall,
        reverse_cons, append_assoc, singleton_append]
      rfl
    | cons d before ih =>
      obtain ⟨hne, hreturn⟩ := ne_and_not_mem_of_not_mem_cons hreturn
      rw [cons_append, lines_go_cons hne.symm, reverse_cons, append_assoc, singleton_append]
      cases hends : endsLine d with
      | true =>
        have hstop : (before.reverse ++ d :: line).takeWhile (!endsLine ·) =
            before.reverse.takeWhile (!endsLine ·) :=
          (takeWhile_dropWhile_append_cons (by simp [hends]) before.reverse line).1
        rw [if_pos rfl, lines_go_done (by simpa using hreturn), countP_cons_of_pos hends,
          hstop]
        simpa using ih hreturn [] (by simp)
      | false =>
        rw [if_neg Bool.false_ne_true, countP_cons_of_neg (by simp [hends])]
        exact ih hreturn (d :: line) (forall_mem_cons.mpr ⟨hends, hline⟩)
  have hfirst := hgo [] (by simp)
  rw [append_nil] at hfirst
  exact hfirst

private theorem isInfix_dropWhile (hword : ∀ c ∈ word, isBlank c = false)
    (hcs : word <:+: cs) : word <:+: cs.dropWhile isBlank := by
  cases word with
  | nil => exact nil_infix
  | cons c word =>
    obtain ⟨a, b, rfl⟩ := hcs
    have hdrop := (takeWhile_dropWhile_append_cons (hword c mem_cons_self) a (word ++ b)).2
    rw [append_assoc, cons_append, hdrop]
    exact ⟨a.dropWhile isBlank, b, by simp⟩

theorem isInfix_trim (hword : ∀ c ∈ word, isBlank c = false)
    (hcs : word <:+: cs) : word <:+: trim cs := by
  rw [trim, trimBy, ← reverse_infix, reverse_reverse]
  apply isInfix_dropWhile (by simpa using hword)
  rw [ reverse_infix]
  exact isInfix_dropWhile hword hcs

end Text

theorem Utf8.return_notMem_normalizeNewlines (cs : List Char) : '\r' ∉ normalizeNewlines cs := by
  have hgo (done : List Char) (hdone : '\r' ∉ done) : '\r' ∉ normalizeNewlines.go cs done := by
    fun_induction normalizeNewlines.go cs done with
    | case1 done => simpa using hdone
    | case2 cs done ih => exact ih (by simpa using hdone)
    | case3 cs done _ ih => exact ih (by simpa using hdone)
    | case4 c cs done _ hc ih =>
      refine ih fun hmem => ?_
      rcases mem_cons.mp hmem with hsame | hmem
      · exact hc hsame.symm
      · exact hdone hmem
  exact hgo [] not_mem_nil

/-! ### Places -/

/-- A place in a text where a word stands. -/
structure WordPlace where
  before : List Char
  word : List Char
  after : List Char

namespace WordPlace

def lineIndex (p : WordPlace) : Nat :=
  p.before.countP Text.endsLine

def line (p : WordPlace) : List Char :=
  Text.lineStart p.before ++ (p.word ++ Text.lineRest p.after)

/-- Line feeds are all that ends lines before the place. -/
def IsPlain (p : WordPlace) : Prop :=
  ∀ c ∈ p.before, Text.endsLine c = true → c = '\n'

theorem lines_lineIndex {p : WordPlace} (hne : p.word ≠ [])
    (hword : ∀ c ∈ p.word, isBlank c = false)
    (hreturn : '\r' ∉ p.before ++ (p.word ++ p.after)) :
    (lines (p.before ++ (p.word ++ p.after)))[p.lineIndex]? = some p.line := by
  obtain ⟨before, word, after⟩ := p
  cases word with
  | nil => exact absurd rfl hne
  | cons c word =>
    obtain ⟨hc, hword⟩ := forall_mem_cons.mp hword
    have hrest : lineRest (word ++ after) = word ++ lineRest after :=
      takeWhile_append_of_pos fun d hd => by simp [endsLine_eq_false (hword d hd)]
    have hline : (lines (before ++ c :: (word ++ after)))[before.countP endsLine]? =
        some (lineStart before ++ c :: lineRest (word ++ after)) :=
      lines_getElem?_countP hreturn (endsLine_eq_false hc)
    rw [hrest] at hline
    exact hline

/-- No more line feeds come before a place than lines end there, and as many exactly if nothing else
ends lines. -/
theorem count_le_lineIndex (p : WordPlace) :
    p.before.count '\n' ≤ p.lineIndex ∧ (p.before.count '\n' = p.lineIndex ↔ p.IsPlain) := by
  obtain ⟨before, word, after⟩ := p
  have hfeed : endsLine '\n' := by decide
  simp only [lineIndex, IsPlain]
  induction before with
  | nil => simp
  | cons c before ih =>
    obtain ⟨hle, hiff⟩ := ih
    rw [forall_mem_cons, ← hiff]
    by_cases hc : c = '\n'
    · subst hc
      rw [count_cons_self, countP_cons_of_pos hfeed]
      exact ⟨by omega, by simp⟩
    · rw [count_cons_of_ne hc]
      cases hends : endsLine c with
      | true =>
        rw [countP_cons_of_pos hends]
        refine ⟨by omega, iff_of_false (by omega) fun hplain => hc (hplain.1 rfl)⟩
      | false =>
        rw [countP_cons_of_neg (by simp [hends])]
        exact ⟨hle, by simp⟩

end WordPlace

/-- The places where one of the words stands in `rest`, which follows `before`: from left to right,
at each place the first word that stands there, without overlap. -/
def wordPlacesFrom (words : List (List Char)) (before rest : List Char) : List WordPlace :=
  match rest with
  | [] => []
  | c :: cs =>
    match words.find? (wordStandsAt · before.getLast? (c :: cs)) with
    | none => wordPlacesFrom words (before ++ [c]) cs
    | some word =>
      ⟨before, word, cs.drop (word.length - 1)⟩ ::
        wordPlacesFrom words (before ++ c :: cs.take (word.length - 1)) (cs.drop (word.length - 1))
termination_by rest.length
decreasing_by
  · simp
  · simp only [length_drop, length_cons]
    omega

def wordPlaces (words : List (List Char)) (cs : List Char) : List WordPlace :=
  wordPlacesFrom words [] cs

section Places

variable {words : List (List Char)}

private theorem exists_of_find? (hwords : ∀ w ∈ words, w ≠ []) {before : Option Char} {c : Char}
    {cs word : List Char} (hfind : words.find? (wordStandsAt · before (c :: cs)) = some word) :
    ∃ tail after, word = c :: tail ∧ cs = tail ++ after := by
  have hstands := find?_some hfind
  have hne := hwords word (mem_of_find?_eq_some hfind)
  simp only [wordStandsAt, Bool.and_eq_true, isPrefixOf_iff_prefix] at hstands
  obtain ⟨after, hafter⟩ := hstands.1.1
  cases word with
  | nil => exact absurd rfl hne
  | cons d tail =>
    obtain ⟨rfl, rfl⟩ := cons.inj hafter
    exact ⟨tail, after, rfl, rfl⟩

theorem mem_wordPlacesFrom (hwords : ∀ w ∈ words, w ≠ []) {before rest : List Char}
    {p : WordPlace} (hp : p ∈ wordPlacesFrom words before rest) :
    before ++ rest = p.before ++ (p.word ++ p.after) ∧ p.word ∈ words := by
  fun_induction wordPlacesFrom words before rest with
  | case1 before => simp at hp
  | case2 before c cs hfind ih =>
    obtain ⟨htext, hword⟩ := ih hp
    exact ⟨by simpa using htext, hword⟩
  | case3 before c cs word hfind ih =>
    obtain ⟨tail, after, rfl, rfl⟩ := exists_of_find? hwords hfind
    rcases mem_cons.mp hp with rfl | hp
    · exact ⟨by simp, mem_of_find?_eq_some hfind⟩
    · obtain ⟨htext, hword⟩ := ih hp
      refine ⟨?_, hword⟩
      rw [← htext]
      simp

private theorem wordLines_go_skip (t rest : List Char) (before : Option Char) (line : Nat)
    (found : List Nat) :
    wordLines.go words before t.length line found (t ++ rest) =
      wordLines.go words (t.getLast?.or before) 0 (line + t.count '\n') found rest := by
  induction t generalizing before line with
  | nil => rfl
  | cons c t ih =>
    have hlast : (c :: t).getLast?.or before = t.getLast?.or (some c) := by
      rw [getLast?_cons]
      cases t.getLast? <;> rfl
    have hcount : line + (c :: t).count '\n' =
        (if c == '\n' then line + 1 else line) + t.count '\n' := by
      rw [count_cons]
      split <;> omega
    rw [hlast, hcount, ← ih]
    rfl

theorem wordLines_go_eq (hwords : ∀ w ∈ words, w ≠ []) (before rest : List Char)
    (found : List Nat) :
    wordLines.go words before.getLast? 0 (before.count '\n') found rest =
      found.reverse ++ (wordPlacesFrom words before rest).map (·.before.count '\n') := by
  have hnext (before : List Char) (c : Char) : (before ++ [c]).count '\n' =
      if c == '\n' then before.count '\n' + 1 else before.count '\n' := by
    rw [count_append, count_singleton]
    split <;> rfl
  fun_induction wordPlacesFrom words before rest generalizing found with
  | case1 before =>
    have hnone : words.any (wordStandsAt · before.getLast? []) = false := by
      rw [any_eq_false]
      intro w hw
      have hne := hwords w hw
      cases w with
      | nil => exact absurd rfl hne
      | cons c w => simp [wordStandsAt]
    simp [wordLines.go, hnone]
  | case2 before c cs hfind ih =>
    have hmore := ih found
    rw [getLast?_concat, hnext] at hmore
    simpa [wordLines.go, hfind] using hmore
  | case3 before c cs word hfind ih =>
    obtain ⟨tail, after, rfl, rfl⟩ := exists_of_find? hwords hfind
    have hlength : (c :: tail).length - 1 = tail.length := rfl
    have hlast : (before ++ c :: tail).getLast? = tail.getLast?.or (some c) := by
      rw [getLast?_append, getLast?_cons]
      cases tail.getLast? <;> rfl
    have hcount : (before ++ c :: tail).count '\n' =
        (before ++ [c]).count '\n' + tail.count '\n' := by
      rw [← count_append, append_assoc, singleton_append]
    have hmore := ih (before.count '\n' :: found)
    rw [hlength, take_left, drop_left, hlast, hcount, hnext, ← wordLines_go_skip] at hmore
    rw [hlength, take_left, drop_left, map_cons]
    simpa [wordLines.go, hfind] using hmore

theorem wordLines_eq (hwords : ∀ w ∈ words, w ≠ []) (cs : List Char) :
    wordLines words cs = (wordPlaces words cs).map (·.before.count '\n') :=
  wordLines_go_eq hwords [] cs []

end Places

/-! ### Uses -/

def simpleName (target : String) : List Char :=
  match Text.splitLast? '.' target.toList with
  | some (_, last) => last
  | none => target.toList

theorem suffix_of_mem_wordsOf {target : String} {w : List Char} (hw : w ∈ wordsOf target) :
    simpleName target <:+ w ∧ w <:+ target.toList := by
  cases hsplit : splitLast? '.' target.toList with
  | none =>
    simp only [wordsOf, hsplit, mem_singleton] at hw
    simp only [simpleName, hsplit]
    rw [hw]
    exact ⟨suffix_refl _, suffix_refl _⟩
  | some parts =>
    obtain ⟨outer, last⟩ := parts
    obtain ⟨htarget, -⟩ := splitLast?_eq_some hsplit
    have hlast : last <:+ target.toList :=
      ⟨outer ++ ['.'], by rw [htarget, append_assoc, singleton_append]⟩
    simp only [wordsOf, hsplit] at hw
    simp only [simpleName, hsplit]
    rcases mem_pair.mp hw with rfl | rfl
    · exact ⟨hlast, suffix_refl _⟩
    · exact ⟨suffix_refl _, hlast⟩

/-- A use is told for a place in a file: with the path of the file, one more than the number of line
feeds before the place, and the line with that number without blanks at its ends. -/
structure Usage.Tells (u : Usage) (f : SourceFile) (p : WordPlace) : Prop where
  filePath : u.filePath = f.path
  line : u.line = p.before.count '\n' + 1
  content : ∃ text, (Text.lines f.text)[p.before.count '\n']? = some text ∧
    u.content = String.ofList (Text.trim text)

section Uses

variable {words : List (List Char)} {f : SourceFile} {limit : Json}

theorem lines_of_mem_wordPlaces (hwords : ∀ w ∈ words, w ≠ [])
    (hsolid : ∀ w ∈ words, ∀ c ∈ w, isBlank c = false) (hreturn : '\r' ∉ f.text)
    {p : WordPlace} (hp : p ∈ wordPlaces words f.text) :
    (lines f.text)[p.lineIndex]? = some p.line := by
  obtain ⟨htext, hword⟩ := mem_wordPlacesFrom hwords hp
  rw [nil_append] at htext
  rw [htext] at hreturn ⊢
  exact WordPlace.lines_lineIndex (hwords _ hword) (hsolid _ hword) hreturn

theorem tells_usagesIn (hwords : ∀ w ∈ words, w ≠ [])
    (hsolid : ∀ w ∈ words, ∀ c ∈ w, isBlank c = false) (hreturn : '\r' ∉ f.text) :
    List.Forall₂ (Usage.Tells · f ·) (usagesIn words f) (wordPlaces words f.text) := by
  have hlines : ∀ p ∈ wordPlaces words f.text,
      ∃ text, (lines f.text)[p.before.count '\n']? = some text := by
    intro p hp
    obtain ⟨hlast, -⟩ :=
      List.getElem?_eq_some_iff.mp (lines_of_mem_wordPlaces hwords hsolid hreturn hp)
    exact ⟨_, List.getElem?_eq_getElem (Nat.lt_of_le_of_lt p.count_le_lineIndex.1 hlast)⟩
  unfold usagesIn
  rw [wordLines_eq hwords]
  generalize wordPlaces words f.text = places at hlines
  induction places with
  | nil => exact .nil
  | cons p places ih =>
    obtain ⟨⟨text, htext⟩, hlines⟩ := forall_mem_cons.mp hlines
    simp only [map_cons, htext, takeWhile_cons_of_pos, Option.isSome_some,
      filterMap_cons, Option.map_some]
    exact .cons ⟨rfl, rfl, text, htext, rfl⟩ (ih hlines)

theorem isPrefix_of_takeUntil {α : Type} {items found : List α}
    (hfound : takeUntil limit items = .ok found) : found <+: items := by
  obtain ⟨_, -, hrest⟩ := ok_of_bind hfound
  cases hrest
  have hall : items.zipIdx.map (·.1) = items := by simp
  conv_rhs => rw [← hall]
  exact ( takeWhile_prefix _).map _

theorem findUsages_outcome_ok {root : Option Path} {v : ServerVersion} {target : String}
    {h h' : Host} {found : List Usage}
    (hfound : (findUsages root v (.str target) limit).outcome h = (.ok (.ok found), h')) :
    ∃ base dir, (rootOr root).outcome h = (.ok base, h') ∧
      (Layout.decompiled base v.name).outcome h' = (.ok dir, h') ∧
      found <+: usages (SourceFile.below h' dir) (wordsOf target) := by
  obtain ⟨base, h₁, hroot, hrest⟩ := bind_ok_iff.mp hfound
  obtain ⟨dir, hdir, hrest⟩ := (Layout.reads_decompiled base v.name).bind_ok hrest
  rw [outcome_get_bind] at hrest
  obtain ⟨isDir, hisDir, hrest⟩ := (reads_isDir dir).bind_ok hrest
  cases isDir with
  | false =>
    obtain ⟨hproblem, -⟩ := pure_ok hrest
    cases hproblem
  | true =>
    rw [if_neg (by simp)] at hrest
    obtain ⟨words, h₂, hasked, hrest⟩ := bind_ok_iff.mp hrest
    obtain ⟨hwords, rfl⟩ := ofExcept_ok hasked
    obtain rfl : wordsOf target = words := ok.inj hwords
    split at hrest
    · obtain ⟨hnone, rfl⟩ := pure_ok hrest
      cases hnone
      exact ⟨base, dir, hroot, hdir, nil_prefix⟩
    · split at hrest
      · next hfirst =>
        obtain ⟨hsame, rfl⟩ := pure_ok hrest
        cases hsame
        exact ⟨base, dir, hroot, hdir, isPrefix_of_takeUntil hfirst⟩
      · obtain ⟨hproblem, -⟩ := pure_ok hrest
        cases hproblem

end Uses

theorem SourceFile.return_notMem_text {h : Host} {dir : Path} {f : SourceFile}
    (hf : f ∈ SourceFile.below h dir) : '\r' ∉ f.text := by
  obtain ⟨⟨p, node⟩, -, hfile⟩ := mem_filterMap.mp hf
  cases node with
  | directory => cases hfile
  | file content time =>
    cases hfile
    exact Utf8.return_notMem_normalizeNewlines _

def placesIn (words : List (List Char)) (files : List SourceFile) : List (SourceFile × WordPlace) :=
  files.flatMap fun f => (wordPlaces words f.text).map (f, ·)

private theorem exists_mem_of_forall₂ {α β : Type} {r : α → β → Prop} {as : List α} {bs : List β}
    (hall : List.Forall₂ r as bs) {a : α} (ha : a ∈ as) : ∃ b ∈ bs, r a b := by
  induction hall with
  | nil => cases ha
  | @cons a' b as bs hab hrest ih =>
    rcases mem_cons.mp ha with rfl | ha
    · exact ⟨b, mem_cons_self, hab⟩
    · obtain ⟨b', hb', hab'⟩ := ih ha
      exact ⟨b', mem_cons_of_mem b hb', hab'⟩

section Names

variable {target : String}

theorem words_of_simpleName (hname : simpleName target ≠ []) : ∀ w ∈ wordsOf target, w ≠ [] := by
  rintro w hw rfl
  exact hname (suffix_nil.mp (suffix_of_mem_wordsOf hw).1)

theorem words_solid_of_target (hsolid : ∀ c ∈ target.toList, isBlank c = false) :
    ∀ w ∈ wordsOf target, ∀ c ∈ w, isBlank c = false :=
  fun _ hw c hc => hsolid c ((suffix_of_mem_wordsOf hw).2.mem hc)

theorem tells_usages (hsolid : ∀ c ∈ target.toList, isBlank c = false)
    (hname : simpleName target ≠ []) {files : List SourceFile} (hfiles : ∀ f ∈ files, '\r' ∉ f.text) :
    List.Forall₂ (fun u place => u.Tells place.1 place.2) (usages files (wordsOf target))
      (placesIn (wordsOf target) files) := by
  induction files with
  | nil => exact .nil
  | cons f files ih =>
    obtain ⟨hf, hfiles⟩ := forall_mem_cons.mp hfiles
    have hfirst : List.Forall₂ (fun u place => u.Tells place.1 place.2)
        (usagesIn (wordsOf target) f) ((wordPlaces (wordsOf target) f.text).map (f, ·)) :=
      forall₂_map_right_iff.mpr
        (tells_usagesIn (words_of_simpleName hname) (words_solid_of_target hsolid) hf)
    rw [usages, placesIn, flatMap_cons, flatMap_cons]
    exact rel_append hfirst (ih hfiles)

/-- The line of a place holds the name; the use that is told for it has the number of this line
exactly if nothing but line feeds ends lines before it, and then says what is in the line. -/
theorem Usage.Tells.line_eq_iff (hsolid : ∀ c ∈ target.toList, isBlank c = false)
    (hname : simpleName target ≠ []) {f : SourceFile} (hreturn : '\r' ∉ f.text) {p : WordPlace}
    (hp : p ∈ wordPlaces (wordsOf target) f.text) {u : Usage} (hu : u.Tells f p) :
    (lines f.text)[p.lineIndex]? = some p.line ∧ simpleName target <:+: p.line ∧
      (u.line = p.lineIndex + 1 ↔ p.IsPlain) ∧
      (p.IsPlain → u.content = String.ofList (trim p.line) ∧
        simpleName target <:+: u.content.toList) := by
  have hwords := words_of_simpleName hname
  have hline := lines_of_mem_wordPlaces hwords (words_solid_of_target hsolid) hreturn hp
  obtain ⟨-, hword⟩ := mem_wordPlacesFrom hwords hp
  obtain ⟨hlast, hwhole⟩ := suffix_of_mem_wordsOf hword
  have hwithin : simpleName target <:+: p.line := by
    refine hlast.isInfix.trans ⟨lineStart p.before, lineRest p.after, ?_⟩
    rw [WordPlace.line, append_assoc]
  refine ⟨hline, hwithin, ?_, fun hplain => ?_⟩
  · rw [hu.line, Nat.add_right_cancel_iff]
    exact p.count_le_lineIndex.2
  · obtain ⟨text, htext, hcontent⟩ := hu.content
    rw [p.count_le_lineIndex.2.mpr hplain, hline] at htext
    cases htext
    refine ⟨hcontent, ?_⟩
    rw [hcontent, String.toList_ofList]
    exact isInfix_trim (fun c hc => hsolid c (hwhole.mem (hlast.mem hc))) hwithin

/-- The line of each use of a name holds the name. Its number is told exactly if nothing but line
feeds ends lines before the place. -/
theorem usage_line_right_iff {root : Option Path} {v : ServerVersion} {limit : Json} {h h' : Host}
    {found : List Usage} (hsolid : ∀ c ∈ target.toList, Text.isBlank c = false)
    (hname : simpleName target ≠ [])
    (hfound : (findUsages root v (.str target) limit).outcome h = (.ok (.ok found), h')) :
    ∃ base dir places, (rootOr root).outcome h = (.ok base, h') ∧
      (Layout.decompiled base v.name).outcome h' = (.ok dir, h') ∧
      places <+: placesIn (wordsOf target) (SourceFile.below h' dir) ∧
      List.Forall₂ (fun u place => u.Tells place.1 place.2) found places ∧
      (∀ f p, (f, p) ∈ places → ∀ u : Usage, u.Tells f p →
        (Text.lines f.text)[p.lineIndex]? = some p.line ∧ simpleName target <:+: p.line ∧
        (u.line = p.lineIndex + 1 ↔ p.IsPlain) ∧
        (p.IsPlain → u.content = String.ofList (Text.trim p.line) ∧
          simpleName target <:+: u.content.toList)) ∧
      ((∀ f ∈ SourceFile.below h' dir, ∀ c ∈ f.text, Text.endsLine c = true → c = '\n') →
        ∀ u ∈ found, simpleName target <:+: u.content.toList) := by
  obtain ⟨base, dir, hroot, hdir, hfirst⟩ := findUsages_outcome_ok hfound
  have hreturn : ∀ f ∈ SourceFile.below h' dir, '\r' ∉ f.text :=
    fun _ => SourceFile.return_notMem_text
  obtain ⟨rest, hrest⟩ := hfirst
  have htells := forall₂_take found.length (tells_usages hsolid hname hreturn)
  rw [← hrest, take_left] at htells
  have hplaces : ∀ f p, (f, p) ∈ (placesIn (wordsOf target) (SourceFile.below h' dir)).take
      found.length → f ∈ SourceFile.below h' dir ∧ p ∈ wordPlaces (wordsOf target) f.text := by
    intro f p hmem
    obtain ⟨f', hf', hp⟩ := mem_flatMap.mp (mem_of_mem_take hmem)
    obtain ⟨p', hp', hsame⟩ := mem_map.mp hp
    obtain ⟨rfl, rfl⟩ := Prod.mk.inj hsame
    exact ⟨hf', hp'⟩
  refine ⟨base, dir, _, hroot, hdir, take_prefix _ _, htells, ?_, ?_⟩
  · intro f p hmem u hu
    obtain ⟨hf, hp⟩ := hplaces f p hmem
    exact hu.line_eq_iff hsolid hname (hreturn f hf) hp
  · intro hfeeds u hu
    obtain ⟨⟨f, p⟩, hmem, htold⟩ := exists_mem_of_forall₂ htells hu
    obtain ⟨hf, hp⟩ := hplaces f p hmem
    have hplain : p.IsPlain := by
      obtain ⟨htext, -⟩ := mem_wordPlacesFrom (words_of_simpleName hname) hp
      intro c hc
      apply hfeeds f hf c
      rw [← nil_append f.text, htext]
      exact mem_append_left _ hc
    exact ((htold.line_eq_iff hsolid hname (hreturn f hf) hp).2.2.2 hplain).2

end Names

def pagesWorkspace : Host where
  files := ⟨[
    (["w"], .directory), (["w", "workspace"], .directory),
    (["w", "workspace", "decompiled"], .directory),
    (["w", "workspace", "decompiled", "release"], .directory),
    (["w", "workspace", "decompiled", "release", "A.java"], .file (.ofText "Foo\x0c\nFoo\n") 1)]⟩

def pagesUsages : List Usage :=
  [⟨"A.java", 1, "Foo"⟩, ⟨"A.java", 2, ""⟩]

theorem findUsages_pagesWorkspace :
    (findUsages (some (.absolute ["w"])) .release (.str "Foo") (.int 100)).outcome pagesWorkspace =
      (.ok (.ok pagesUsages), pagesWorkspace) := by
  have hroot : (rootOr (some (.absolute ["w"]))).outcome pagesWorkspace =
      (.ok (.absolute ["w"]), pagesWorkspace) := rfl
  have hdir : (Layout.decompiled (.absolute ["w"]) "release").outcome pagesWorkspace =
      (.ok (.absolute ["w", "workspace", "decompiled", "release"]), pagesWorkspace) := rfl
  have hisDir : (isDir (.absolute ["w", "workspace", "decompiled", "release"])).outcome
      pagesWorkspace = (.ok true, pagesWorkspace) := rfl
  have hfiles : (pagesWorkspace.filesBelow (.absolute ["w", "workspace", "decompiled", "release"])
      ".java").isEmpty = false := by decide +kernel
  have hfirst : takeUntil (.int 100) (usages (SourceFile.below pagesWorkspace
      (.absolute ["w", "workspace", "decompiled", "release"])) (wordsOf "Foo")) =
        .ok pagesUsages := by decide +kernel
  have hwords : (ofExcept (wordsOfValue (.str "Foo"))).outcome pagesWorkspace =
      (.ok (wordsOf "Foo"), pagesWorkspace) := rfl
  rw [findUsages, bind_of_ok hroot, ServerVersion.name, bind_of_ok hdir,
    outcome_get_bind, bind_of_ok hisDir, Bool.not_true,
    if_neg Bool.false_ne_true, bind_of_ok hwords, hfiles, if_neg Bool.false_ne_true, hfirst]
  rfl

/-- The second use is told with the second line, which is empty: the form feed ends the first line
and the line feed the second, so the name stands in the third. -/
theorem usage_lines_pagesWorkspace :
    ∃ first second : SourceFile × WordPlace,
      (⟨"A.java", 1, "Foo"⟩ : Usage).Tells first.1 first.2 ∧
      (⟨"A.java", 2, ""⟩ : Usage).Tells second.1 second.2 ∧
      simpleName "Foo" <:+: second.2.line ∧ ¬ second.2.IsPlain ∧ second.2.lineIndex ≠ 1 := by
  have hname : simpleName "Foo" = "Foo".toList := rfl
  obtain ⟨_, _, places, -, -, -, htells, hplaces, -⟩ :=
    usage_line_right_iff (by decide : ∀ c ∈ "Foo".toList, Text.isBlank c = false)
      (by rw [hname]; decide) findUsages_pagesWorkspace
  obtain _ | ⟨hfirst, _ | ⟨hsecond, hnone⟩⟩ := htells
  obtain - | - := hnone
  obtain ⟨-, hwithin, hnumber, htold⟩ := hplaces _ _ (by simp) _ hsecond
  have hplain : ¬ WordPlace.IsPlain _ := fun hplain => by
    have hfalse := (htold hplain).2
    rw [hname] at hfalse
    revert hfalse
    decide
  refine ⟨_, _, hfirst, hsecond, hwithin, hplain, fun hindex => hplain (hnumber.mp ?_)⟩
  rw [hindex]

end JarAtlas
